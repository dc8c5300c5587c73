import Mathlib

/-!
# Proofs — Taylor expansion

Derivatives of polynomials at the origin, and sums of values with weights in their place
(`Taylor.difference`).  Such a sum is the derivative for all polynomials up to a degree as soon as
it is so for products of directions (`difference_eq_of_power`), and it never is for all of them
(`exists_difference_ne`).
-/

open List MvPolynomial

namespace StencilForge.Taylor

variable {n : Nat} {α β : List (Fin n)}

abbrev Poly (n : Nat) := MvPolynomial (Fin n) ℚ

/-- The derivative at the origin along given directions. -/
noncomputable def derivativeAt (α : List (Fin n)) (p : Poly n) :
    ℚ := eval 0 (α.foldr (fun i q => pderiv i q) p)

noncomputable def exponents (α : List (Fin n)) : Fin n →₀ ℕ := (α : Multiset (Fin n)).toFinsupp

theorem exponents_cons (i : Fin n) (α : List (Fin n)) :
    exponents (i :: α) = Finsupp.single i 1 + exponents α := by
  simp [exponents, ← Multiset.cons_coe, ← Multiset.singleton_add]

theorem degree_exponents (α : List (Fin n)) : (exponents α).degree = α.length := by
  induction α with
  | nil => simp [exponents]
  | cons i α ih => rw [exponents_cons, map_add, ih, Finsupp.degree_single, length_cons, add_comm]

theorem exponents_eq_iff : exponents α = exponents β ↔ α.Perm β := by simp [exponents]

/-- The product of the variables of given directions. -/
noncomputable def power (α : List (Fin n)) : Poly n := monomial (exponents α) 1

theorem totalDegree_power_le (α : List (Fin n)) : (power α).totalDegree ≤ α.length :=
  (totalDegree_monomial_le _ _).trans (degree_exponents α).le

theorem eval_power (x : Fin n → ℚ) (α : List (Fin n)) : eval x (power α) = (α.map x).prod := by
  induction α with
  | nil => simp [power, exponents]
  | cons i α ih => rw [power, exponents_cons, monomial_single_add, map_mul, ← power, ih]; simp

theorem coeff_derivative (α : List (Fin n)) : ∀ s : Fin n →₀ ℕ, ∃ c : ℚ, c ≠ 0 ∧ ∀ p : Poly n,
    coeff s (α.foldr (fun i q => pderiv i q) p) = c * coeff (s + exponents α) p := by
  induction α with
  | nil => exact fun s => ⟨1, one_ne_zero, by simp [exponents]⟩
  | cons i α ih =>
    intro s
    obtain ⟨c, hc, h⟩ := ih (s + Finsupp.single i 1)
    refine ⟨c * (s i + 1), mul_ne_zero hc (by positivity), fun p => ?_⟩
    rw [foldr_cons, coeff_pderiv, h, exponents_cons, add_assoc]
    ring

/-- A derivative at the origin is a multiple of a coefficient. -/
theorem exists_derivativeAt (α : List (Fin n)) : ∃ c : ℚ, c ≠ 0 ∧ ∀ p :
    Poly n, derivativeAt α p = c * coeff (exponents α) p := by
  obtain ⟨c, hc, h⟩ := coeff_derivative α 0
  refine ⟨c, hc, fun p => ?_⟩
  rw [derivativeAt, ← zero_add (exponents α), ← h p, ← constantCoeff_eq, eval_zero]

theorem pderiv_comm (i j : Fin n) (p : Poly n) : pderiv i (pderiv j p) = pderiv j (pderiv i p) := by
  ext s
  rw [coeff_pderiv, coeff_pderiv, coeff_pderiv, coeff_pderiv, add_right_comm]
  by_cases h : i = j
  · rw [h]
  · simp [h, Ne.symm h]
    ring

theorem derivativeAt_perm (h : α.Perm β) : derivativeAt α = derivativeAt β := by
  funext p
  have : LeftCommutative fun (i : Fin n) (q : Poly n) => pderiv i q := ⟨pderiv_comm⟩
  rw [derivativeAt, derivativeAt, h.foldr_eq]

theorem derivativeAt_power_of_not_perm (h : ¬α.Perm β) : derivativeAt α (power β) = 0 := by
  obtain ⟨c, -, hc⟩ := exists_derivativeAt α
  rw [hc, power, coeff_monomial, if_neg fun he => h (exponents_eq_iff.1 he.symm), mul_zero]

theorem derivativeAt_power_ne_zero (α : List (Fin n)) : derivativeAt α (power α) ≠ 0 := by
  obtain ⟨c, hc0, hc⟩ := exists_derivativeAt α
  simpa [hc, power] using hc0

/-- All tuples of directions. -/
def tuples (n : Nat) : Nat → List (List (Fin n))
  | 0 => [[]]
  | m + 1 => (finRange n).flatMap fun i => (tuples n m).map (i :: ·)

theorem derivativeAt_cons (i : Fin n) (α : List (Fin n)) (p : Poly n) :
    derivativeAt (i :: α) p = derivativeAt α (pderiv i p) := by
  rw [derivativeAt_perm (perm_append_singleton i α).symm, derivativeAt, derivativeAt, foldr_append]
  rfl

theorem sum_tuples (m : Nat) : ∀ {p : Poly n}, p.IsHomogeneous m →
    ((tuples n m).map fun o => derivativeAt o p).sum = m.factorial * eval 1 p := by
  induction m with
  | zero =>
    intro p hp
    obtain ⟨a, rfl⟩ : ∃ a, p = C a := ⟨_,
      totalDegree_eq_zero_iff_eq_C.1 (Nat.le_zero.1 hp.totalDegree_le)⟩
    simp [tuples, derivativeAt]
  | succ m ih =>
    intro p hp
    have heuler := congrArg (eval 1) hp.sum_X_mul_pderiv
    simp only [map_sum, map_mul, eval_X, Pi.one_apply, one_mul, nsmul_eq_mul, map_natCast] at heuler
    have hder : ∀ i, ((tuples n m).map fun o => derivativeAt (i :: o) p).sum =
      m.factorial * eval 1 (pderiv i p) := by
      intro i
      simp only [derivativeAt_cons]
      exact ih hp.pderiv
    rw [tuples, map_flatMap, flatMap_def, sum_flatten, map_map]
    simp only [map_map, Function.comp_def, hder]
    rw [← Fin.sum_univ_def, ← Finset.mul_sum, heuler, Nat.factorial_succ]
    push_cast
    ring

/-- The tuples that are orders of given directions are as many as the derivative of their product
says. -/
theorem count_mul_derivativeAt (α : List (Fin n)) :
    ((tuples n α.length).countP fun o => o.isPerm α) * derivativeAt α
    (power α) = α.length.factorial := by
  have hhom : (power α).IsHomogeneous α.length := isHomogeneous_monomial _ (degree_exponents α)
  have hone : eval 1 (power α) = (1 : ℚ) := by simp [eval_power, Pi.one_def]
  have hterm : ∀ o, derivativeAt o (power α) = if o.isPerm α then derivativeAt α
    (power α) else 0 := by
    intro o
    split
    · rw [derivativeAt_perm (isPerm_iff.1 ‹_›)]
    · exact derivativeAt_power_of_not_perm fun h => ‹¬_› (isPerm_iff.2 h)
  have hsum := sum_tuples α.length hhom
  rw [hone, mul_one, map_congr_left fun o _ => hterm o] at hsum
  simpa [sum_map_ite, countP_eq_length_filter] using hsum

/-! ### Differences -/

/-- The sum of the values at points, with weights. -/
noncomputable def difference (xs : List (Fin n → ℚ)) (ws : List ℚ) : Poly n →ₗ[ℚ] ℚ :=
  (zipWith (fun x w => w • (aeval x).toLinearMap) xs ws).sum

theorem difference_apply (xs : List (Fin n → ℚ)) (ws : List ℚ) (p : Poly n) :
    difference xs ws p = (zipWith (fun x w => w * eval x p) xs ws).sum := by
  rw [difference, ← LinearMap.applyₗ_apply_apply p, map_list_sum, map_zipWith]
  simp [aeval_eq_eval]

/-- A difference that is the derivative for products of directions is so for all polynomials. -/
theorem difference_eq_of_power {xs : List (Fin n → ℚ)} {ws : List ℚ} {m : Nat}
    (h : ∀ o : List (Fin n), o.length < m → difference xs ws (power o) = derivativeAt α (power o))
    (p : Poly n)
    (hp : p.totalDegree < m) : difference xs ws p = derivativeAt α p := by
  obtain ⟨c, -, hc⟩ := exists_derivativeAt α
  have hlin : derivativeAt α = (c • lcoeff ℚ (exponents α) : Poly n →ₗ[ℚ] ℚ) := by
    funext p
    simp [hc]
  rw [hlin] at h ⊢
  rw [p.as_sum, map_sum, map_sum]
  refine Finset.sum_congr rfl fun s hs => ?_
  have hpower : power (Finsupp.toMultiset s).toList = (monomial s 1 : Poly n) :=
    by simp [power, exponents]
  have hlen : (Finsupp.toMultiset s).toList.length < m := by
    rw [Multiset.length_toList, Finsupp.card_toMultiset]
    exact (le_totalDegree hs).trans_lt hp
  have hmono : monomial s (coeff s p) = coeff s p • (monomial s 1 : Poly n) :=
    by simp [smul_monomial]
  rw [hmono, map_smul, map_smul, ← hpower, h _ hlen]

/-- No weights give the derivative for all polynomials: there is one that is zero at all points. -/
theorem exists_difference_ne (hα : α ≠ []) (xs : List (Fin n → ℚ)) (ws : List ℚ) :
    ∃ p : Poly n, p.totalDegree ≤ α.length + xs.length ∧ difference xs ws p ≠ derivativeAt α p := by
  have hfactor : ∀ x : Fin n → ℚ, ∃ g : Poly n, g.totalDegree ≤ 1 ∧ eval 0 g = 1 ∧
    (x ≠ 0 → eval x g = 0) := by
    intro x
    by_cases hx : x = 0
    · exact ⟨1, by simp, by simp, fun h => absurd hx h⟩
    · obtain ⟨i, hi⟩ := Function.ne_iff.1 hx
      refine ⟨1 - C (x i)⁻¹ * X i, ?_, by simp, fun _ => by simp [inv_mul_cancel₀ hi]⟩
      refine (totalDegree_sub _ _).trans (max_le (by simp) ((totalDegree_mul _ _).trans ?_))
      simp [totalDegree_X]
  choose g hdeg hzero hroot using hfactor
  refine ⟨power α * (xs.map g).prod, ?_, ?_⟩
  · refine (totalDegree_mul _ _).trans (Nat.add_le_add ?_ ((totalDegree_list_prod _).trans ?_))
    · exact totalDegree_power_le α
    · refine (sum_le_card_nsmul _ 1 fun k hk => ?_).trans (by simp)
      simp only [map_map, mem_map, Function.comp_apply] at hk
      obtain ⟨x, -, rfl⟩ := hk
      exact hdeg x
  · have hvanish : ∀ x ∈ xs, eval x (power α * (xs.map g).prod) = 0 := by
      intro x hx
      rw [map_mul, eval_power]
      by_cases h0 : x = 0
      · obtain ⟨i, α', rfl⟩ := exists_cons_of_ne_nil hα
        simp [h0]
      · refine mul_eq_zero_of_right _ ?_
        rw [map_list_prod]
        exact prod_eq_zero (mem_map.2 ⟨g x, mem_map.2 ⟨x, hx, rfl⟩, hroot x h0⟩)
    have hdiff : difference xs ws (power α * (xs.map g).prod) = 0 := by
      rw [difference_apply]
      refine List.sum_eq_zero fun q hq => ?_
      obtain ⟨i, hi, rfl⟩ := mem_iff_getElem.1 hq
      rw [getElem_zipWith, hvanish _ (getElem_mem _), mul_zero]
    obtain ⟨c, hc0, hc⟩ := exists_derivativeAt α
    have hone : eval 0 (xs.map g).prod = (1 : ℚ) := by
      rw [map_list_prod, List.map_map]
      refine prod_eq_one fun q hq => ?_
      obtain ⟨x, -, rfl⟩ := mem_map.1 hq
      exact hzero x
    have hcoeff := coeff_monomial_mul 0 (exponents α) (1 : ℚ) (xs.map g).prod
    rw [eval_zero, constantCoeff_eq] at hone
    rw [add_zero, one_mul, hone] at hcoeff
    rw [hdiff, hc, power, hcoeff, mul_one]
    exact hc0.symm

end StencilForge.Taylor
