import StencilForge.Proofs.Forms

/-!
# Proofs — elimination

Matrices of numbers are tables of a function of row and column.  Elimination keeps the vectors that
all rows take to zero, and leaves rows with pivots, in columns that increase and are zero in all
other rows (`Matrix.reduced_table`).
-/

open List

namespace StencilForge

namespace Matrix

variable {A : Algebra} {n m r c : Nat} {F G : Nat → Nat → ℚ} {ps : List Nat}

/-- The matrix with `n` rows and `m` columns of given numbers. -/
def table (n m : Nat) (F : Nat → Nat → ℚ) : Matrix :=
  (List.range n).map fun i => (List.range m).map fun j => .rat (F i j)

def Kernel (n m : Nat) (F : Nat → Nat → ℚ) (x : Nat → ℚ) :
    Prop := ∀ i < n, ∑ j ∈ Finset.range m, F i j * x j = 0

@[simp] theorem length_table : (table n m F).length = n := by simp [table]

theorem getElem_table {i : Nat} (h : i < (table n m F).length) :
    (table n m F)[i] = (List.range m).map fun j => .rat (F i j) := by
  simp [table]

theorem row_table {i : Nat} (h : i < n) : (table n m F).row i =
    (List.range m).map fun j => .rat (F i j) := by
  rw [row, getD_eq_getElem _ _ (by simpa using h), getElem_table]

theorem getD_range_map {j : Nat} (h : j < m) (f : Nat → ℚ) (e : Expr) :
    ((List.range m).map fun j => Expr.rat (f j)).getD j e = .rat (f j) := by
  simp [h]

theorem cols_table (h : 0 < n) : (table n m F).cols = m := by
  obtain ⟨k, rfl⟩ := Nat.exists_eq_succ_of_ne_zero h.ne'
  simp [cols, table, range_succ_eq_map]

theorem table_congr (h : ∀ i < n, ∀ j < m, F i j = G i j) : table n m F = table n m G := by
  refine map_congr_left fun i hi => map_congr_left fun j hj => ?_
  rw [h i (List.mem_range.1 hi) j (List.mem_range.1 hj)]

theorem zipIdx_map_range {α β : Type} {f : Nat → α} {g : α × Nat → β} {h : Nat → β}
    (hg : ∀ i < n, g (f i, i) = h i) :
    ((List.range n).map f).zipIdx.map g = (List.range n).map h := by
  refine ext_getElem (by simp) fun i h₁ _ => ?_
  simp only [length_map, length_zipIdx, List.length_range] at h₁
  simp [hg i h₁]

theorem isNull_rat (q : ℚ) : isNull (.rat q) = decide (q = 0) := by
  simp [isNull, Expr.num?, Expr.rat, Number.isZero, Bool.beq_eq_decide_eq]

theorem pivot?_rats (f : Nat → ℚ) (xs : List Nat) :
    pivot? (xs.map fun i => .rat (f i)) = xs.findIdx? fun i => f i ≠ 0 := by
  have hfloat : ((xs.map fun i => Expr.rat (f i)).any Expr.isFloat) = false := by
    simp [Expr.isFloat, Expr.rat, Number.isFloat]
  simp only [pivot?, hfloat, Bool.false_eq_true, if_false, findIdx?_map]
  congr 1
  funext i
  simp [isNull_rat]

theorem tidy_rat (hA : A.Linear) (q : ℚ) : tidy A (.rat q) = .rat q := by
  rw [tidy, (Form.stands_rat q).expand hA]

theorem crossCancel_rats (hA : A.Linear) (a b : ℚ) (f g : Nat → ℚ) :
    crossCancel A (.rat a) (.rat b) ((List.range m).map fun j => .rat (f j))
      ((List.range m).map fun j => .rat (g j)) =
      (List.range m).map fun j => .rat (a * f j - b * g j) := by
  simp only [crossCancel, zipWith_map, zipWith_self, hA.rat_mul, hA.rat_sub, tidy_rat hA]

theorem swap_range {α : Type} {f : Nat → α} {d : α} {i j : Nat} (hi : i < n) (hj : j < n) :
    (((List.range n).map f).set i (((List.range n).map f).getD j d)).set j
    (((List.range n).map f).getD i d) =
      (List.range n).map fun k => f (Equiv.swap i j k) := by
  refine ext_getElem (by simp) fun k hk _ => ?_
  rw [getElem_set, getElem_set]
  by_cases hjk : j = k
  · simp [← hjk, hi]
  · by_cases hik : i = k
    · subst hik
      simp [hjk, hj]
    · simp [hjk, hik, Equiv.swap_apply_of_ne_of_ne (Ne.symm hik) (Ne.symm hjk)]

theorem swapRows_table {i j : Nat} (hi : i < n) (hj : j < n) :
    (table n m F).swapRows i j = table n m fun k => F (Equiv.swap i j k) := swap_range hi hj

/-! ### Pivots -/

/-- The first rows have pivots in the columns `ps`, the others are zero in the first `c` columns. -/
structure Pivoted (n : Nat) (F : Nat → Nat → ℚ) (c : Nat) (ps : List Nat) : Prop where
  le     : ps.length ≤ n
  lt     : ∀ p ∈ ps, p < c
  sorted : ps.Pairwise (· < ·)
  below  : ∀ i < n, ps.length ≤ i → ∀ j < c, F i j = 0
  lead   : ∀ i p, ps[i]? = some p → F i p ≠ 0
  left   : ∀ i p, ps[i]? = some p → ∀ j < p, F i j = 0
  alone  : ∀ i p, ps[i]? = some p → ∀ k < n, k ≠ i → F k p = 0

theorem kernel_swap {i j : Nat} {x : Nat → ℚ} (hi : i < n) (hj : j < n) :
    Kernel n m (fun k => F (Equiv.swap i j k)) x ↔ Kernel n m F x := by
  have hlt : ∀ k < n, Equiv.swap i j k < n := by
    intro k hk
    rw [Equiv.swap_apply_def]
    split_ifs <;> assumption
  refine ⟨fun h k hk => ?_, fun h k hk => h _ (hlt k hk)⟩
  simpa using h _ (hlt k hk)

theorem kernel_combine {a b : Nat → ℚ} {x : Nat → ℚ} (hr : r < n) (ha : ∀ k, a k ≠ 0)
    (hG : ∀ k < n, ∀ j, G k j = if k = r then F r j else a k * F k j - b k * F r j) :
    Kernel n m G x ↔ Kernel n m F x := by
  have hsum : ∀ k < n, k ≠ r → ∑ j ∈ Finset.range m, G k j * x j =
      a k * ∑ j ∈ Finset.range m, F k j * x j - b k * ∑ j ∈ Finset.range m, F r j * x j := by
    intro k hk hkr
    simp only [hG k hk, if_neg hkr, sub_mul, mul_assoc, Finset.sum_sub_distrib, Finset.mul_sum]
  have hrow : ∑ j ∈ Finset.range m, G r j * x j = ∑ j ∈ Finset.range m, F r j * x j :=
    by simp [hG r hr]
  constructor
  · intro h k hk
    have hr0 := hrow.symm.trans (h r hr)
    by_cases hkr : k = r
    · exact hkr ▸ hr0
    · have hk0 := (hsum k hk hkr).symm.trans (h k hk)
      rw [hr0, mul_zero, sub_zero] at hk0
      exact (mul_eq_zero.1 hk0).resolve_left (ha k)
  · intro h k hk
    by_cases hkr : k = r
    · rw [hkr, hrow, h r hr]
    · rw [hsum k hk hkr, h k hk, h r hr, mul_zero, mul_zero, sub_zero]

namespace Pivoted

theorem swap {j : Nat} (h : Pivoted n F c ps) (hr : ps.length < n) (hj : ps.length ≤ j)
    (hjn : j < n) :
    Pivoted n (fun k => F (Equiv.swap ps.length j k)) c ps := by
  have hfix : ∀ i p, ps[i]? = some p → Equiv.swap ps.length j i = i := by
    intro i p hi
    have hi := (List.getElem?_eq_some_iff.1 hi).1
    exact Equiv.swap_apply_of_ne_of_ne hi.ne (hi.trans_le hj).ne
  have hlt : ∀ k < n, Equiv.swap ps.length j k < n := by
    intro k hk
    rw [Equiv.swap_apply_def]
    split_ifs <;> assumption
  refine ⟨h.le, h.lt, h.sorted, fun i hi hle => h.below _ (hlt i hi) ?_, fun i p hp => ?_,
    fun i p hp => ?_,
    fun i p hp k hk hki => h.alone i p hp _ (hlt k hk) fun he => hki ?_⟩
  · rw [Equiv.swap_apply_def]
    split_ifs <;> omega
  · rw [hfix i p hp]
    exact h.lead i p hp
  · rw [hfix i p hp]
    exact h.left i p hp
  · rw [← hfix i p hp] at he
    exact (Equiv.swap ps.length j).injective he

theorem next (h : Pivoted n F c ps) (h0 : ∀ i < n, ps.length ≤ i → F i c = 0) :
    Pivoted n F (c + 1) ps where
  le := h.le
  lt p hp := (h.lt p hp).trans (Nat.lt_succ_self c)
  sorted := h.sorted
  below i hi hle j hj := by
    rcases Nat.lt_succ_iff_lt_or_eq.1 hj with hj | rfl
    · exact h.below i hi hle j hj
    · exact h0 i hi hle
  lead := h.lead
  left := h.left
  alone := h.alone

theorem combine {a b : Nat → ℚ} (h : Pivoted n F c ps) (hr : ps.length < n) (hp : F ps.length c ≠ 0)
    (ha : ∀ k, a k ≠ 0) (hab : ∀ k, a k * F k c = b k * F ps.length c)
    (hG : ∀ k < n, ∀ j, G k j = if k = ps.length then F ps.length j else a k * F k j - b k * F
      ps.length j) :
    Pivoted n G (c + 1) (ps ++ [c]) := by
  have hzero : ∀ j < c, F ps.length j = 0 := h.below _ hr le_rfl
  have hval : ∀ k < n, ∀ j < c, k ≠ ps.length → G k j = a k * F k j := by
    intro k hk j hj hne
    rw [hG k hk, if_neg hne, hzero j hj, mul_zero, sub_zero]
  have hlead : ∀ j, G ps.length j = F ps.length j := fun j => by rw [hG _ hr, if_pos rfl]
  have hcases : ∀ i p, (ps ++ [c])[i]? = some p → ps[i]? = some p ∧ p < c ∧ i < ps.length ∨
    i = ps.length ∧ p = c := by
    intro i p hi
    rw [getElem?_append] at hi
    split at hi
    · exact .inl ⟨hi, h.lt p (mem_of_getElem? hi), ‹_›⟩
    · obtain ⟨hlen, hp⟩ := List.getElem?_eq_some_iff.1 hi
      simp only [length_cons, length_nil] at hlen
      exact .inr ⟨by omega, by simpa using hp.symm⟩
  constructor
  · simpa using hr
  · intro p hp
    rcases mem_append.1 hp with hp | hp
    · exact (h.lt p hp).trans (Nat.lt_succ_self c)
    · simp_all
  · rw [pairwise_append]
    exact ⟨h.sorted, pairwise_singleton _ _, fun p hp q hq => mem_singleton.1 hq ▸ h.lt p hp⟩
  · intro i hi hle j hj
    simp only [length_append, length_cons, length_nil] at hle
    rcases Nat.lt_succ_iff_lt_or_eq.1 hj with hj | rfl
    · rw [hval i hi j hj (by omega), h.below i hi (by omega) j hj, mul_zero]
    · rw [hG i hi, if_neg (by omega), hab, sub_self]
  · intro i p hi
    rcases hcases i p hi with ⟨hi, hlt, hil⟩ | ⟨rfl, rfl⟩
    · rw [hval i (hil.trans hr) p hlt hil.ne]
      exact mul_ne_zero (ha i) (h.lead i p hi)
    · rwa [hlead]
  · intro i p hi j hj
    rcases hcases i p hi with ⟨hi, hlt, hil⟩ | ⟨rfl, rfl⟩
    · rw [hval i (hil.trans hr) j (hj.trans hlt) hil.ne, h.left i p hi j hj, mul_zero]
    · rw [hlead, hzero j hj]
  · intro i p hi k hk hki
    rcases hcases i p hi with ⟨hi, hlt, hil⟩ | ⟨rfl, rfl⟩
    · by_cases hkr : k = ps.length
      · rw [hkr, hlead, hzero p hlt]
      · rw [hval k hk p hlt hkr, h.alone i p hi k hk hki, mul_zero]
    · rw [hG k hk, if_neg hki, hab, sub_self]

theorem le_pivot (h : Pivoted n F c ps) : ∀ {i p : Nat}, ps[i]? = some p → i ≤ p := by
  intro i
  induction i with
  | zero => exact fun _ => Nat.zero_le _
  | succ i ih =>
    intro p hp
    obtain ⟨hlt, hget⟩ := List.getElem?_eq_some_iff.1 hp
    have hprev := ih (List.getElem?_eq_getElem (by omega))
    have := pairwise_iff_getElem.1 h.sorted i (i + 1) (by omega) hlt (Nat.lt_succ_self i)
    omega

end Pivoted

/-- One pivot: its row is brought up, and its column cleared in all other rows. -/
theorem clear_table (hA : A.Linear) (hr : r < n) (hc : c < m) (hp : F r c ≠ 0) :
    ∃ (G : Nat → Nat → ℚ) (a b : Nat → ℚ), (∀ k, a k ≠ 0) ∧ (∀ k, a k * F k c = b k * F r c) ∧
      (∀ k < n, ∀ j, G k j = if k = r then F r j else a k * F k j - b k * F r j) ∧
      ((table n m F).zipIdx.map fun x => if x.2 = r then x.1 else if isNull
        (x.1.getD c .zero) then x.1
        else crossCancel A ((table n m F).entry r c) (x.1.getD c .zero) x.1 ((table n m F).row r)) =
          table n m G := by
  have hentry : (table n m F).entry r c = .rat (F r c) := by
    rw [entry, ← row, row_table hr, getD_range_map hc]
  refine ⟨fun k j => if k = r then F r j else
    (if F k c = 0 then 1 else F r c) * F k j - F k c * F r j, fun k =>
    if F k c = 0 then 1 else F r c, fun k => F k c, fun k => ?_, fun k => ?_, fun k _ j => rfl,
      zipIdx_map_range fun i hi => ?_⟩
  · dsimp only
    split <;> simp [hp]
  · dsimp only
    split <;> simp_all [mul_comm]
  · simp only [hentry, row_table hr, getD_range_map hc, isNull_rat, decide_eq_true_eq]
    by_cases hir : i = r
    · simp [hir]
    · by_cases h0 : F i c = 0
      · simp [hir, h0]
      · simp only [hir, h0, if_false, crossCancel_rats hA]

theorem eliminate_table (hA : A.Linear) :
    ∀ {fuel : Nat} {c : Nat} {F : Nat → Nat → ℚ} {ps : List Nat},
    Pivoted n F c ps → c ≤ m → m < c + fuel → ∃ G qs,
      eliminate A fuel ps.length c (table n m F) ps = (table n m G, qs) ∧
      (∀ x, Kernel n m G x ↔ Kernel n m F x) ∧ Pivoted n G m qs := by
  intro fuel
  induction fuel with
  | zero => intro c F ps _ hcm hfuel; omega
  | succ fuel ih =>
    intro c F ps h hcm hfuel
    rw [eliminate]
    by_cases hc : c < m ∧ ps.length < n
    · have hcols : (table n m F).cols = m := cols_table (by omega)
      have hcol : ((table n m F).drop ps.length).map (·.getD c .zero) =
          ((List.range n).drop ps.length).map fun i => .rat (F i c) := by
        rw [table, ← map_drop, map_map]
        exact map_congr_left fun i _ => getD_range_map hc.1 _ _
      simp only [hcols, length_table, hc, decide_true, Bool.and_self, if_true, hcol, pivot?_rats]
      cases hk : ((List.range n).drop ps.length).findIdx? fun i => F i c ≠ 0 with
      | none =>
        rw [findIdx?_eq_none_iff] at hk
        refine ih (h.next fun i hi hle => ?_) hc.1 (by omega)
        have hmem : i ∈ (List.range n).drop ps.length :=
          mem_drop_iff_getElem.2 ⟨i - ps.length, by simp; omega, by simp; omega⟩
        simpa using hk i hmem
      | some k =>
        obtain ⟨hkl, hkF, -⟩ := findIdx?_eq_some_iff_getElem.1 hk
        simp only [length_drop, List.length_range, getElem_drop, getElem_range,
          decide_eq_true_eq] at hkl hkF
        have hk : ps.length + k < n := by omega
        have hswap := h.swap hc.2 (Nat.le_add_right _ k) hk
        have hp : F (Equiv.swap ps.length (ps.length + k) ps.length) c ≠ 0 := by simpa using hkF
        obtain ⟨G, a, b, ha, hab, hG, htable⟩ :=
          clear_table (F := fun i => F (Equiv.swap ps.length (ps.length + k) i)) hA hc.2 hc.1 hp
        simp only [swapRows_table hc.2 hk, htable]
        obtain ⟨G', qs, hrun, hker, hpiv⟩ := ih (hswap.combine hc.2 hp ha hab hG) hc.1 (by omega)
        refine ⟨G', qs, ?_, fun x => ?_, hpiv⟩
        · rwa [length_append, length_singleton] at hrun
        · rw [hker, kernel_combine hc.2 ha hG, kernel_swap hc.2 hk]
    · have hcond : ¬((decide (c < (table n m F).cols) && decide (ps.length < (table n m F).length))
        = true) := by
        rw [length_table, Bool.and_eq_true, decide_eq_true_iff, decide_eq_true_iff]
        rintro ⟨h₁, h₂⟩
        rw [cols_table (by omega)] at h₁
        exact hc ⟨h₁, h₂⟩
      rw [if_neg hcond]
      refine ⟨F, ps, rfl, fun x => .rfl, h.le, fun p hp => (h.lt p hp).trans_le hcm, h.sorted,
        fun i hi hle j hj => ?_,
        h.lead, h.left, h.alone⟩
      have := h.le
      exact h.below i hi hle j (by omega)

theorem Pivoted.scale {u : Nat → ℚ} (h : Pivoted n F c ps) (hu : ∀ i, u i ≠ 0) :
    Pivoted n (fun i j => F i j / u i) c ps where
  le := h.le
  lt := h.lt
  sorted := h.sorted
  below i hi hle j hj := by rw [h.below i hi hle j hj, zero_div]
  lead i p hi := div_ne_zero (h.lead i p hi) (hu i)
  left i p hi j hj := by rw [h.left i p hi j hj, zero_div]
  alone i p hi k hk hki := by rw [h.alone i p hi k hk hki, zero_div]

theorem kernel_scale {u x : Nat → ℚ} (hu : ∀ i, u i ≠ 0) :
    Kernel n m (fun i j => F i j / u i) x ↔ Kernel n m F x := by
  refine forall_congr' fun i => imp_congr_right fun _ => ?_
  simp only [div_mul_eq_mul_div, ← Finset.sum_div, div_eq_zero_iff, hu i, or_false]

/-- Reduction keeps the kernel and leaves pivots. -/
theorem reduced_table (hA : A.Linear) : ∃ G ps, reduced A (table n m F) = table n m G ∧
    (∀ x, Kernel n m G x ↔ Kernel n m F x) ∧ Pivoted n G m ps := by
  have hstart : Pivoted n F 0 [] := ⟨by simp, by simp, .nil, by simp, by simp, by simp, by simp⟩
  obtain ⟨G, ps, hrun, hker, hpiv⟩ : ∃ G ps, eliminate A ((table n m F).cols + 1) 0 0 (table n m F)
    [] =
      (table n m G, ps) ∧ (∀ x, Kernel n m G x ↔ Kernel n m F x) ∧ Pivoted n G m ps := by
    rcases Nat.eq_zero_or_pos n with rfl | hn
    · exact ⟨F, [], by simp [eliminate], fun _ => .rfl, by simp, by simp, .nil, by simp, by simp,
        by simp, by simp⟩
    · rw [cols_table hn]
      exact eliminate_table hA hstart (Nat.zero_le m) (by omega)
  have hu : ∀ i, (fun i => (ps[i]?).elim 1 (G i)) i ≠ 0 := by
    intro i
    dsimp only
    cases hp : ps[i]? with
    | none => exact one_ne_zero
    | some p => exact hpiv.lead i p hp
  refine ⟨fun i j => G i j / (ps[i]?).elim 1 (G i), ps, ?_,
    fun x => (kernel_scale hu).trans (hker x), hpiv.scale hu⟩
  simp only [reduced, hrun]
  refine zipIdx_map_range fun i hi => ?_
  cases hp : ps[i]? with
  | none => simp [hp]
  | some p =>
    have hpm : p < m := hpiv.lt p (mem_of_getElem? hp)
    simp only [getD_range_map hpm]
    refine zipIdx_map_range fun j hj => ?_
    have h0 := hpiv.lead i p hp
    by_cases hjp : j = p
    · simp [hp, hjp, h0, Expr.one, Expr.int, Expr.rat]
    · by_cases hlt : j < p
      · simp [hjp, hlt, hpiv.left i p hp j hlt]
      · simp only [hp, hjp, hlt, if_false, hA.rat_div _ h0, Option.elim_some]

end Matrix

end StencilForge
