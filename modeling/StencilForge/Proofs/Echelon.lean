import StencilForge.Proofs.Solving

/-!
# Proofs — solutions with parameters

Ones on the diagonal leave the last unknowns free, and going back through the rows gives the others
as linear forms in them: a table that takes each unknown to a form whose values, whatever the
parameters, fulfil the system (`LinearSystem.Poses.solution`).
-/

open List StencilForge.Form StencilForge.Matrix

namespace StencilForge

namespace LinearSystem

variable {A : Algebra} {n i j k : Nat} {F G : Nat → Nat → ℚ} {u : Nat → String} {v : String → ℚ}

/-! ### Echelon form -/

/-- The first `i` rows have ones on the diagonal and zeros before it, all others zeros in the first
`i` columns. -/
def Upper (n i : Nat) (F : Nat → Nat → ℚ) : Prop :=
  (∀ r < n, ∀ j < i, j < r → F r j = 0) ∧ ∀ r < i, F r r = 1

/-- The values of the unknowns `u`, and minus one for the right side. -/
def spot (k : Nat) (u : Nat → String) (v : String → ℚ) (j : Nat) :
    ℚ := if j < k then v (u j) else -1

theorem kernel_columns (hi : i < k) (hj : j < k) :
    Kernel n (k + 1) (fun r c => F r (Equiv.swap i j c)) (spot k (u ∘ Equiv.swap i j) v) ↔
    Kernel n (k + 1) F (spot k u v) := by
  have hlt : ∀ {m c}, i < m → j < m → (c < m ↔ Equiv.swap i j c < m) := by
    intro m c him hjm
    rw [Equiv.swap_apply_def]
    split_ifs <;> simp_all
  refine forall_congr' fun r => imp_congr_right fun _ => ?_
  rw [Finset.sum_equiv (Equiv.swap i j) (t := Finset.range (k + 1))
    (g := fun c => F r c * spot k u v c)]
  · simp only [Finset.mem_range]
    exact fun c => hlt (by omega) (by omega)
  · intro c _
    simp only [spot, Function.comp_apply, if_congr (hlt (c := c) hi hj) rfl rfl]

theorem place_spec (hi : i < k) {f : Nat → ℚ} {p : Option Nat}
    (hp : (if !isNull (((List.range (k + 1)).map fun j => Expr.rat (f j)).getD i .zero) then some i
      else ((((List.range (k + 1)).map fun j => Expr.rat (f j)).take k).zipIdx.find? fun x =>
        x.2 > i && !isNull x.1).map (·.2)) = p) :
    (p = none → ∀ j < k, i ≤ j → f j = 0) ∧ ∀ j, p = some j → i ≤ j ∧ j < k ∧ f j ≠ 0 := by
  rw [getD_range_map (by omega), isNull_rat, ← map_take, take_range, min_eq_left (by omega)] at hp
  by_cases hfi : f i = 0
  · rw [if_neg (by simp [hfi])] at hp
    subst hp
    refine ⟨fun h j hj hij => ?_, fun j h => ?_⟩
    · rw [Option.map_eq_none_iff, find?_eq_none] at h
      have := h (.rat (f j), j) (mk_mem_zipIdx_iff_getElem?.2 (by simp [hj]))
      rcases Nat.eq_or_lt_of_le hij with rfl | hij
      · exact hfi
      · simpa [hij, isNull_rat] using this
    · obtain ⟨x, hx, rfl⟩ := Option.map_eq_some_iff.1 h
      have hprop := find?_some hx
      have hmem := mem_zipIdx_iff_getElem?.1 (mem_of_find?_eq_some hx)
      obtain ⟨hlt, hget⟩ := List.getElem?_eq_some_iff.1 hmem
      simp only [getElem_map, getElem_range] at hget
      simp only [length_map, List.length_range] at hlt
      rw [← hget, isNull_rat] at hprop
      simp only [gt_iff_lt, Bool.and_eq_true, decide_eq_true_eq, Bool.not_eq_true',
        decide_eq_false_iff_not] at hprop
      exact ⟨hprop.1.le, hlt, hprop.2⟩
  · rw [if_pos (by simp [hfi])] at hp
    subst hp
    refine ⟨by simp, fun j hj => ?_⟩
    cases hj
    exact ⟨le_rfl, hi, hfi⟩

/-- The row of a pivot divided by it and taken from the rows below. -/
def clearBelow (i : Nat) (F : Nat → Nat → ℚ) (r c : Nat) : ℚ :=
  if r = i then F i c / F i i else F r c - (if i < r then F r i else 0) * (F i c / F i i)

theorem kernel_clearBelow {m : Nat} {x : Nat → ℚ} (hi : i < n) (hp : F i i ≠ 0) :
    Kernel n m (clearBelow i F) x ↔ Kernel n m F x := by
  have hu : ∀ r, (if r = i then F i i else (1 : ℚ)) ≠ 0 := by
    intro r
    split <;> simp [hp]
  refine (kernel_combine (F := fun r c => F r c / if r = i then F i i else 1) (a := 1)
    (b := fun r => if i < r then F r i else 0) hi (fun _ => one_ne_zero) ?_).trans (kernel_scale hu)
  intro r _ c
  by_cases hr : r = i
  · simp [clearBelow, hr]
  · simp [clearBelow, hr]

theorem Upper.clearBelow (h : Upper n i F) (hi : i < n) (hp : F i i ≠ 0) :
    Upper n (i + 1) (clearBelow i F) := by
  have hrow : ∀ j < i, F i j = 0 := fun j hj => h.1 i hi j hj hj
  refine ⟨fun r hr j hj hjr => ?_, fun r hr => ?_⟩
  · rw [LinearSystem.clearBelow]
    split
    · rw [hrow j (by omega), zero_div]
    · rcases Nat.lt_succ_iff_lt_or_eq.1 hj with hj | rfl
      · rw [h.1 r hr j hj hjr, hrow j hj, zero_div, mul_zero, sub_zero]
      · rw [if_pos hjr, div_self hp, mul_one, sub_self]
  · rw [LinearSystem.clearBelow]
    split
    · subst r
      exact div_self hp
    · rw [if_neg (by omega), zero_mul, sub_zero, h.2 r (by omega)]

theorem table_clearBelow (hA : A.Linear) {m : Nat} (hi : i < n) (him : i < m) (hp : F i i ≠ 0) :
    (((table n m F).set i (((table n m F).row i).map fun e => A.mul [e,
      A.inv ((table n m F).entry i i)])).zipIdx.map fun x =>
      if x.2 > i && !isNull (x.1.getD i .zero) then
        zipWith (fun u v => tidy A (A.sub u (A.mul [v, x.1.getD i .zero]))) x.1
          (((table n m F).row i).map fun e => A.mul [e, A.inv ((table n m F).entry i i)])
      else x.1) = table n m (clearBelow i F) := by
  have hentry : (table n m F).entry i i = .rat (F i i) := by
    rw [entry, ← row, row_table hi, getD_range_map him]
  have hlead : ((table n m F).row i).map (fun e => A.mul [e, A.inv ((table n m F).entry i i)]) =
      (List.range m).map fun j => .rat (F i j / F i i) := by
    rw [hentry, row_table hi, map_map]
    refine map_congr_left fun j _ => ?_
    rw [Function.comp_apply, Algebra.inv, hA.inv hp, hA.rat_mul, div_eq_mul_inv]
  have hset : (table n m F).set i ((List.range m).map fun j => .rat (F i j / F i i)) =
      table n m (Function.update F i fun j => F i j / F i i) := by
    rw [set_eq_modify]
    exact modify_table rfl
  rw [hlead, hset]
  refine zipIdx_map_range fun r hr => ?_
  by_cases hri : r = i
  · simp [hri, clearBelow]
  · simp only [Function.update_of_ne hri, getD_range_map him, isNull_rat, clearBelow, if_neg hri]
    by_cases hlt : i < r
    · by_cases h0 : F r i = 0
      · simp [h0]
      · simp [hlt, h0, zipWith_map, hA.rat_mul, hA.rat_sub, tidy_rat hA, mul_comm]
    · simp [hlt]

theorem Upper.swap (h : Upper n i F) (hij : i ≤ j) :
    Upper n i fun r c => F r (Equiv.swap i j c) := by
  have hfix : ∀ c < i, Equiv.swap i j c = c :=
    fun c hc => Equiv.swap_apply_of_ne_of_ne hc.ne (hc.trans_le hij).ne
  refine ⟨fun r hr c hc => ?_, fun r hr => ?_⟩
  · simpa only [hfix c hc] using h.1 r hr c hc
  · simpa only [hfix r hr] using h.2 r hr

theorem right_eq_zero {r : Nat} (hv : Kernel n (k + 1) F (spot k u v)) (hr : r < n)
    (h : ∀ c < k, F r c = 0) : F r k = 0 := by
  have hrow := hv r hr
  rw [Finset.sum_range_succ, Finset.sum_eq_zero fun c hc =>
    by rw [h c (Finset.mem_range.1 hc), zero_mul]] at hrow
  simpa [spot] using hrow

/-- The rows without one of them. -/
def skip (i : Nat) (F : Nat → Nat → ℚ) (r : Nat) : Nat → ℚ := F (if r < i then r else r + 1)

theorem eraseIdx_table {m : Nat} (hi : i < n + 1) : (table (n + 1) m F).eraseIdx i = table n m
    (skip i F) := by
  refine ext_getElem (by simp [length_eraseIdx, hi]) fun r hr _ => ?_
  rw [getElem_eraseIdx, getElem_table]
  split <;> simp [getElem_table, skip, *]

theorem kernel_skip {m : Nat} {x : Nat → ℚ} (hi : i < n + 1) (h0 : ∀ c < m, F i c = 0) :
    Kernel n m (skip i F) x ↔ Kernel (n + 1) m F x := by
  constructor
  · intro h r hr
    rcases Nat.lt_trichotomy r i with hlt | rfl | hgt
    · simpa [skip, hlt] using h r (by omega)
    · exact Finset.sum_eq_zero fun c hc => by rw [h0 c (Finset.mem_range.1 hc), zero_mul]
    · obtain ⟨q, rfl⟩ := Nat.exists_eq_succ_of_ne_zero (by omega : r ≠ 0)
      simpa [skip, show ¬q < i by omega] using h q (by omega)
  · intro h r hr
    by_cases hlt : r < i
    · simpa [skip, hlt] using h r (by omega)
    · simpa [skip, hlt] using h (r + 1) (by omega)

theorem Upper.skip (h : Upper (n + 1) i F) : Upper n i (skip i F) := by
  refine ⟨fun r hr c hc hcr => ?_, fun r hr => ?_⟩
  · rw [LinearSystem.skip]
    split <;> exact h.1 _ (by omega) c hc (by omega)
  · rw [LinearSystem.skip, if_pos hr]
    exact h.2 r hr

/-- Equations with a solution are brought into echelon form, unknowns exchanged. -/
theorem echelon_table (hA : A.Linear) : ∀ (fuel : Nat) {n i : Nat} {F : Nat → Nat → ℚ}
    {u : Nat → String}, Upper n i F → i ≤ n → i ≤ k →
    n < i + fuel → Set.InjOn u (Set.Iio k) → (∃ v, Kernel n (k + 1) F (spot k u v)) → ∃ n' G w,
      n' ≤ k ∧ Upper n' n' G ∧ Set.InjOn w (Set.Iio k) ∧
      echelon A fuel i (table n (k + 1) F) ((List.range k).map fun j => .symbol (u j)) =
        some (table n' (k + 1) G, (List.range k).map fun j => .symbol (w j)) ∧
      ∀ v, Kernel n' (k + 1) G (spot k w v) ↔ Kernel n (k + 1) F (spot k u v) := by
  intro fuel
  induction fuel with
  | zero => intro n i F u _ hin _ hfuel; omega
  | succ fuel ih =>
    intro n i F u hup hin hik hfuel hu hsol
    obtain ⟨v, hv⟩ := hsol
    rw [echelon]
    simp only [length_table, length_map, List.length_range]
    by_cases hlt : i < n
    · by_cases hk : i = k
      · subst hk
        have hzero : ∀ r < n, i ≤ r → ∀ c < i + 1, F r c = 0 := by
          intro r hr hir c hc
          rcases Nat.lt_succ_iff_lt_or_eq.1 hc with hc | rfl
          · exact hup.1 r hr c hc (by omega)
          · exact right_eq_zero hv hr fun j hj => hup.1 r hr j hj (by omega)
        have hany : (((table n (i + 1) F).drop i).any fun r => !isNull (r.getD i .zero)) =
          false := by
          refine any_eq_false.2 fun x hx => ?_
          obtain ⟨r, hr, rfl⟩ := mem_drop_iff_getElem.1 hx
          rw [length_table] at hr
          rw [getElem_table, getD_range_map (Nat.lt_succ_self i), isNull_rat,
            hzero _ (by omega) (by omega) i (Nat.lt_succ_self i)]
          simp
        refine ⟨i, F, u, le_rfl, ⟨fun r hr => hup.1 r (by omega), hup.2⟩, hu, ?_,
          fun v => ⟨fun h r hr => ?_, fun h r hr => h r (by omega)⟩⟩
        · simp only [hlt, if_true, hany, Bool.false_eq_true, if_false]
          simp [table, ← map_take, min_eq_left hin]
        · by_cases hri : r < i
          · exact h r hri
          · exact Finset.sum_eq_zero fun c hc =>
              by rw [hzero r hr (by omega) c (Finset.mem_range.1 hc), zero_mul]
      · rw [if_pos hlt, if_neg hk, row_table hlt]
        generalize hp : (if !isNull (((List.range (k + 1)).map fun j =>
          Expr.rat (F i j)).getD i .zero) then some i
          else ((((List.range (k + 1)).map fun j => Expr.rat (F i j)).take k).zipIdx.find? fun x =>
            x.2 > i && !isNull x.1).map (·.2)) = p
        obtain ⟨hnone, hsome⟩ := place_spec (by omega) hp
        cases p with
        | none =>
          have hleft : ∀ c < k, F i c = 0 := by
            intro c hc
            rcases Nat.lt_or_ge c i with hci | hci
            · exact hup.1 i hlt c hci hci
            · exact hnone rfl c hc hci
          have hright := right_eq_zero hv hlt hleft
          obtain ⟨n, rfl⟩ := Nat.exists_eq_succ_of_ne_zero (by omega : n ≠ 0)
          have hker : ∀ {x}, Kernel n (k + 1) (skip i F) x ↔ Kernel (n + 1) (k + 1) F x :=
            kernel_skip hlt fun c hc => by
            rcases Nat.lt_succ_iff_lt_or_eq.1 hc with hc | rfl
            · exact hleft c hc
            · exact hright
          obtain ⟨n', G, w, hn', hG, hw, hrun, hsame⟩ :=
            ih hup.skip (by omega) hik (by omega) hu ⟨v, hker.2 hv⟩
          refine ⟨n', G, w, hn', hG, hw, ?_, fun v => (hsame v).trans hker⟩
          simp only [getD_range_map (Nat.lt_succ_self k), isNull_rat, hright, decide_true,
            Bool.not_true, Bool.false_eq_true, if_false,
            eraseIdx_table hlt, hrun]
        | some j =>
          obtain ⟨hij, hjk, hp⟩ := hsome j rfl
          have hp : (fun r c => F r (Equiv.swap i j c)) i i ≠ 0 := by simpa using hp
          have hik' : i < k := by omega
          have hcols : (table n (k + 1) F).map
            (fun x => (x.set i (x.getD j .zero)).set j (x.getD i .zero)) =
              table n (k + 1) fun r c => F r (Equiv.swap i j c) := by
            rw [table, table, map_map]
            exact map_congr_left fun r _ => swap_range (by omega) (by omega)
          have hker : ∀ v, Kernel n (k + 1) (clearBelow i fun r c => F r (Equiv.swap i j c))
            (spot k (u ∘ Equiv.swap i j) v) ↔
              Kernel n (k + 1) F (spot k u v) :=
                fun v => (kernel_clearBelow hlt hp).trans (kernel_columns hik' hjk)
          have hmaps : Set.MapsTo (Equiv.swap i j) (Set.Iio k) (Set.Iio k) := by
            intro c hc
            rw [Set.mem_Iio, Equiv.swap_apply_def]
            split_ifs <;> assumption
          obtain ⟨n', G, w, hn', hG, hw, hrun, hsame⟩ :=
            ih ((hup.swap hij).clearBelow hlt hp) hlt hik' (by omega)
            (hu.comp (Equiv.swap i j).injective.injOn hmaps) ⟨v, (hker v).2 hv⟩
          refine ⟨n', G, w, hn', hG, hw, ?_, fun v => (hsame v).trans (hker v)⟩
          simp only [swap_range hik' hjk, hcols,
            table_clearBelow (F := fun r c => F r (Equiv.swap i j c)) hA hlt
              (show i < k + 1 by omega) hp]
          exact hrun
    · obtain rfl : i = n := by omega
      exact ⟨i, F, u, hik, hup, hu, by simp, fun _ => .rfl⟩

/-! ### Back-substitution -/

/-- The unknowns of the rows from `t` on are known: the forms `Φ` in the unknowns without a row
solve these rows. -/
structure Known (n k : Nat) (w : Nat → String) (G : Nat → Nat → ℚ) (t : Nat)
    (found : Table Expr Expr) (Φ : String → Form) : Prop where
  values : ∀ p ∈ found, ∃ j, t ≤ j ∧ j < n ∧ p.1 = .symbol (w j) ∧ Stands p.2 (Φ (w j))
  mem    : ∀ j, t ≤ j → j < n → ∃ e, (.symbol (w j), e) ∈ found
  others : ∀ s, (∀ j, t ≤ j → j < n → s ≠ w j) → Φ s = symbol s
  free   : ∀ j, t ≤ j → j < n → ∀ s, Φ (w j) (some s) ≠ 0 → ∃ c, n ≤ c ∧ c < k ∧ s = w c
  rows   : ∀ r, t ≤ r → r < n → ∀ v, ∑ c ∈ Finset.range (k + 1),
    G r c * spot k w (fun s => value v (Φ s)) c = 0

variable {w : Nat → String} {t : Nat} {found : Table Expr Expr} {Φ : String → Form}

theorem Known.get (h : Known n k w G t found Φ) (htj : t ≤ j) (hjn : j < n) :
    ∃ e, Table.get? found (.symbol (w j)) = some e ∧ Stands e (Φ (w j)) := by
  obtain ⟨e, he⟩ := h.mem j htj hjn
  cases hfind : found.find? (·.1 == .symbol (w j)) with
  | none =>
    have := find?_eq_none.1 hfind _ he
    exact absurd (Expr.same_refl _) this
  | some p =>
    obtain ⟨i, -, -, hp, hstands⟩ := h.values p (mem_of_find?_eq_some hfind)
    have hkey := find?_some hfind
    have hw : w i = w j := symbol_inj.1 (hp.symm.trans (Expr.eq_sym_of_same hkey))
    exact ⟨p.2, by simp [Table.get?, hfind], hw ▸ hstands⟩

theorem stands_foldl_sub (hA : A.Linear) {es : List Expr} {fs : List Form}
    (h : Forall₂ Stands es fs) :
    ∀ {e : Expr} {f : Form}, Stands e f →
      Stands (es.foldl (fun c t => A.sub c t) e) (f - fs.sum) := by
  induction h with
  | nil => intro e f he; simpa using he
  | cons h _ ih =>
    intro e f he
    rw [sum_cons, ← sub_sub]
    exact ih (hA.sub he h)

/-- The form that a row of a table in echelon form gives for its unknown. -/
noncomputable def solved (k : Nat) (w : Nat → String) (G : Nat → Nat → ℚ) (t : Nat)
    (Φ : String → Form) : Form :=
  const (G t k) - (((List.range k).filter (t < ·)).map fun j => G t j • Φ (w j)).sum

theorem solved_apply {s : String} (h : ∀ j < k, t < j → Φ (w j) (some s) = 0) :
    solved k w G t Φ (some s) = 0 := by
  rw [solved, Finsupp.sub_apply, ← Finsupp.applyAddHom_apply (some s) (List.sum _), map_list_sum,
    List.sum_eq_zero]
  · simp [const]
  · intro q hq
    simp only [map_map, mem_map, mem_filter, List.mem_range, decide_eq_true_eq,
      Function.comp_apply] at hq
    obtain ⟨j, ⟨hjk, htj⟩, rfl⟩ := hq
    simp [h j hjk htj]

theorem sum_solved (hG : ∀ c < t, G t c = 0) (h1 : G t t = 1) (ht : t < k) {y : Nat → ℚ}
    (hy : y t = G t k -
    (((List.range k).filter (t < ·)).map fun j => G t j * y j).sum) : ∑ c ∈ Finset.range k,
    G t c * y c = G t k := by
  have hnd : ((List.range k).filter (t < ·)).Nodup := nodup_range.filter _
  have hmem : t ∉ ((List.range k).filter (t < ·)).toFinset := by simp
  have hsub : insert t ((List.range k).filter (t < ·)).toFinset ⊆ Finset.range k := by
    intro c hc
    simp only [Finset.mem_insert, mem_toFinset, mem_filter, List.mem_range] at hc
    rcases hc with rfl | hc
    · exact Finset.mem_range.2 ht
    · exact Finset.mem_range.2 hc.1
  rw [← Finset.sum_subset hsub, Finset.sum_insert hmem, sum_toFinset _ hnd, hy, h1, one_mul,
    sub_add_cancel]
  intro c hc hcn
  simp only [Finset.mem_insert, mem_toFinset, mem_filter, List.mem_range, decide_eq_true_eq, not_or,
    not_and] at hcn
  have := hcn.2 (Finset.mem_range.1 hc)
  rw [hG c (by omega), zero_mul]

theorem Known.step (hw : Set.InjOn w (Set.Iio k)) (hG : Upper n n G) (hnk : n ≤ k) (ht : t < n)
    (h : Known n k w G (t + 1) found Φ)
    {e : Expr} (he : Stands e (solved k w G t Φ)) :
    Known n k w G t (found ++ [(.symbol (w t), e)])
      (Function.update Φ (w t) (solved k w G t Φ)) := by
  have hne : ∀ {j}, j < k → j ≠ t → w j ≠ w t :=
    fun hj hjt hwj => hjt (hw (Set.mem_Iio.2 hj) (Set.mem_Iio.2 (by omega)) hwj)
  have hkeep : ∀ {j}, j < k → j ≠ t → Function.update Φ (w t) (solved k w G t Φ) (w j) = Φ (w j) :=
    fun hj hjt => Function.update_of_ne (hne hj hjt) _ _
  constructor
  · intro p hp
    rcases mem_append.1 hp with hp | hp
    · obtain ⟨j, htj, hjn, hpj, hstands⟩ := h.values p hp
      exact ⟨j, by omega, hjn, hpj, by rwa [hkeep (by omega) (by omega)]⟩
    · obtain rfl := mem_singleton.1 hp
      exact ⟨t, le_rfl, ht, rfl, by simpa using he⟩
  · intro j htj hjn
    rcases Nat.eq_or_lt_of_le htj with rfl | htj
    · exact ⟨e, by simp⟩
    · obtain ⟨e', he'⟩ := h.mem j htj hjn
      exact ⟨e', mem_append_left _ he'⟩
  · intro s hs
    rw [Function.update_of_ne (hs t le_rfl ht)]
    exact h.others s fun j htj hjn => hs j (by omega) hjn
  · intro j htj hjn s hsj
    rcases Nat.eq_or_lt_of_le htj with rfl | htj
    · rw [Function.update_self] at hsj
      by_contra hnone
      refine hsj (solved_apply fun j hjk htj => by_contra fun hj => hnone ?_)
      by_cases hjn : j < n
      · exact h.free j htj hjn s hj
      · have hsym : Φ (w j) = symbol (w j) := h.others _ fun i _ hin hij => by
          have := hw (Set.mem_Iio.2 hjk) (Set.mem_Iio.2 (by omega)) hij
          omega
        refine ⟨j, by omega, hjk, ?_⟩
        by_contra hne
        exact hj (by simp [hsym, symbol, Ne.symm hne])
    · rw [hkeep (by omega) (by omega)] at hsj
      exact h.free j htj hjn s hsj
  · intro r htr hrn v
    have hleft : ∀ c < r, G r c = 0 := fun c hc => hG.1 r hrn c (by omega) hc
    rcases Nat.eq_or_lt_of_le htr with rfl | htr
    · rw [Finset.sum_range_succ, sum_solved hleft (hG.2 t ht) (by omega)]
      · simp [spot]
      · have hvalue : value v (solved k w G t Φ) =
          G t k - (((List.range k).filter (t < ·)).map fun j => G t j * value v (Φ (w j))).sum := by
          simp [solved, map_list_sum, Function.comp_def]
        rw [spot, if_pos (by omega), Function.update_self, hvalue]
        congr 2
        refine map_congr_left fun j hj => ?_
        simp only [mem_filter, List.mem_range, decide_eq_true_eq] at hj
        rw [spot, if_pos hj.1, hkeep hj.1 (by omega)]
    · rw [← h.rows r htr hrn v]
      refine Finset.sum_congr rfl fun c _ => ?_
      by_cases hcr : c < r
      · rw [hleft c hcr, zero_mul, zero_mul]
      · by_cases hck : c < k
        · simp [spot, hck, hkeep hck (by omega)]
        · simp [spot, hck]

theorem Known.run (hw : Set.InjOn w (Set.Iio k)) (hG : Upper n n G) (hnk : n ≤ k)
    {g : Nat → Table Expr Expr → Table Expr Expr}
    (hg : ∀ t < n, ∀ found Φ, Known n k w G (t + 1) found Φ →
      ∃ e, g t found = found ++ [(.symbol (w t), e)] ∧ Stands e (solved k w G t Φ)) :
    ∃ Φ, Known n k w G 0 ((List.range n).foldr g []) Φ := by
  suffices hrun : ∀ m t, t + m = n → ∃ Φ, Known n k w G t ((range' t m).foldr g []) Φ by
    simpa [range_eq_range'] using hrun n 0 (Nat.zero_add n)
  intro m
  induction m with
  | zero =>
    intro t ht
    exact ⟨symbol, by simp, fun j _ _ => by omega, fun _ _ => rfl, fun j _ _ => by omega,
      fun j _ _ => by omega⟩
  | succ m ih =>
    intro t ht
    obtain ⟨Φ, hΦ⟩ := ih (t + 1) (by omega)
    obtain ⟨e, he, hstands⟩ := hg t (by omega) _ Φ hΦ
    rw [range'_succ, foldr_cons, he]
    exact ⟨_, hΦ.step hw hG hnk (by omega) hstands⟩

/-- Back-substitution gives forms that solve a table in echelon form. -/
theorem backSubstitute_known (hA : A.Linear) (hw : Set.InjOn w (Set.Iio k)) (hG : Upper n n G)
    (hnk : n ≤ k) :
    ∃ Φ, Known n k w G 0 (backSubstitute A (table n (k + 1) G)
      ((List.range k).map fun j => .symbol (w j))) Φ := by
  rw [backSubstitute, foldl_reverse, length_table]
  refine Known.run hw hG hnk fun t ht found Φ hΦ => ?_
  have hused : Forall₂ Stands ((((List.range k).map fun j => Expr.symbol (w j)).zipIdx.filter
    (·.2 > t)).map fun x =>
      A.mul [((List.range (k + 1)).map fun j => Expr.rat (G t j)).getD x.2 .zero,
        if x.2 < n then (Table.get? found x.1).getD x.1 else x.1])
      (((List.range k).filter (t < ·)).map fun j => G t j • Φ (w j)) := by
    have hzip : ((List.range k).map fun j => Expr.symbol (w j)).zipIdx = (List.range k).map fun j =>
      (Expr.symbol (w j), j) := by
      simpa using zipIdx_map_range (g := id) (f := fun j => Expr.symbol (w j)) (n := k) fun _ _ =>
        rfl
    rw [hzip, filter_map, map_map, forall₂_map_left_iff, forall₂_map_right_iff]
    refine forall₂_same.2 fun j hj => ?_
    simp only [mem_filter, List.mem_range, Function.comp_apply, gt_iff_lt, decide_eq_true_eq] at hj
    simp only [Function.comp_apply, getD_range_map (show j < k + 1 by omega)]
    refine hA.mul2' _ ?_
    by_cases hjn : j < n
    · obtain ⟨e, he, hstands⟩ := hΦ.get hj.2 hjn
      rwa [if_pos hjn, he]
    · rw [if_neg hjn, hΦ.others _ fun i _ hin hij => ?_]
      · exact stands_sym _
      · have := hw (Set.mem_Iio.2 hj.1) (Set.mem_Iio.2 (by omega)) hij
        omega
  have hv := stands_foldl_sub hA hused (stands_rat (G t k))
  refine ⟨_, ?_, hv⟩
  simp only [row_table ht, length_map, List.length_range, getD_range_map (Nat.lt_succ_self k)]
  rw [tidy, hv.expand hA]
  simp [show t < k by omega]

/-- A system with a solution is solved: each unknown becomes a linear form, and whatever the values
of the symbols in these forms, the values of the unknowns fulfil the equations. -/
theorem Poses.solution (hA : A.Linear) {s : LinearSystem} {us : List String}
    {S : (String → ℚ) → Prop} (hnd : us.Nodup)
    (h : Poses s us S) (hS : ∃ v, S v) : ∃ found, ∃ Φ : String → Form, s.solution A = some found ∧
      (∀ t, ∃ e, Substitute.algebraicTable A found (.symbol t) = .ok e ∧ Stands e (Φ t)) ∧ ∀ v,
        S fun t => value v (Φ t) := by
  obtain ⟨n, F, z, hm, -, -, -, hfull, -⟩ := h.rows
  have hpoint : ∀ v, point us v = spot us.length (fun j => us.getD j default) v := by
    intro v
    funext j
    by_cases hj : j < us.length <;> simp [point, spot, hj]
  have hkernel : ∀ v, Kernel n (us.length + 1) F (spot us.length (fun j => us.getD j default) v) ↔
    S v := fun v => hpoint v ▸ hfull v
  have hus : s.unknowns = (List.range us.length).map fun j => .symbol (us.getD j default) := by
    rw [h.unknowns]
    refine ext_getElem (by simp) fun j hj _ => ?_
    simp only [length_map] at hj
    simp [hj]
  have hinj : Set.InjOn (fun j => us.getD j default) (Set.Iio us.length) := by
    intro i hi j hj hij
    rw [Set.mem_Iio] at hi hj
    simpa [hi, hj, hnd.getElem_inj_iff] using hij
  obtain ⟨v, hv⟩ := hS
  obtain ⟨n', G, w, hn', hG, hw, hrun, hsame⟩ := echelon_table hA (n + us.length + 1)
    ⟨by simp, by simp⟩ (Nat.zero_le n) (Nat.zero_le us.length) (by omega) hinj ⟨v, (hkernel v).2 hv⟩
  obtain ⟨Φ, hΦ⟩ := backSubstitute_known hA hw hG hn'
  refine ⟨backSubstitute A (table n' (us.length + 1) G)
    ((List.range us.length).map fun j => .symbol (w j)), Φ, ?_, fun t => ?_, fun v => ?_⟩
  · rw [LinearSystem.solution, hm, length_table, hus, length_map, List.length_range, hrun]
    rfl
  · refine Substitute.algebraicTable_sym (K := (List.range n').map w) (G := Φ) (fun s o ho => ?_)
      (fun s hs => ?_) (fun p hp => ?_) fun o ho => ?_
    · obtain ⟨i, hi, rfl⟩ := mem_map.1 ho
      rw [List.mem_range] at hi
      by_cases hs : ∃ j < n', s = w j
      · obtain ⟨j, hj, rfl⟩ := hs
        by_contra hne
        obtain ⟨c, hc, hck, hwc⟩ := hΦ.free j (Nat.zero_le j) hj _ hne
        have := hw (Set.mem_Iio.2 (by omega)) (Set.mem_Iio.2 hck) hwc
        omega
      · rw [hΦ.others s fun j _ hj hsj => hs ⟨j, hj, hsj⟩]
        have hne : s ≠ w i := fun h => hs ⟨i, hi, h⟩
        simp [symbol, hne]
    · exact hΦ.others s fun j _ hj hsj => hs (mem_map.2 ⟨j, List.mem_range.2 hj, hsj.symm⟩)
    · obtain ⟨j, -, hj, hp, hstands⟩ := hΦ.values p hp
      exact ⟨w j, mem_map.2 ⟨j, List.mem_range.2 hj, rfl⟩, hp, hstands⟩
    · obtain ⟨j, hj, rfl⟩ := mem_map.1 ho
      exact hΦ.mem j (Nat.zero_le j) (List.mem_range.1 hj)
  · refine (hkernel _).1 ((hsame _).1 ?_)
    exact fun r hr => hΦ.rows r (Nat.zero_le r) hr v

end LinearSystem

end StencilForge
