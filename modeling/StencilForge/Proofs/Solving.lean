import StencilForge.Proofs.Elimination

/-!
# Proofs — systems of linear equations

`LinearSystem.Poses` says which values of the unknowns fulfil a system.  Adding equations and
reducing keep it in step with the equations, and the last row tells whether there are such values
(`Poses.solutionStructure`).
-/

open List StencilForge.Form StencilForge.Matrix

namespace StencilForge

namespace LinearSystem

variable {A : Algebra} {us : List String} {n i : Nat} {F G : Nat → Nat → ℚ} {v : String → ℚ}
    {s : LinearSystem}
  {S T : (String → ℚ) → Prop} {e : Expr} {f : Form}

/-- The values of the unknowns, and minus one for the right side. -/
def point (us : List String) (v : String → ℚ) (j : Nat) : ℚ := (us[j]?).elim (-1) v

/-- The values of the unknowns that fulfil the equations of a table. -/
def Fulfils (n : Nat) (us : List String) (F : Nat → Nat → ℚ) (v : String → ℚ) : Prop :=
  Kernel n (us.length + 1) F (point us v)

/-- The system has equations in the unknowns `us`, and `S` are the values that fulfil them. -/
structure Poses (s : LinearSystem) (us : List String) (S : (String → ℚ) → Prop) : Prop where
  unknowns : s.unknowns = us.map .symbol
  rows : ∃ n F z, s.matrix = table n (us.length + 1) F ∧ s.nextZeroRow = (z : Nat) ∧ z ≤ n ∧
    (∀ i < n, z ≤ i → ∀ j < us.length + 1, F i j = 0) ∧ (∀ v, Fulfils n us F v ↔ S v) ∧
    (s.isReduced = true → ∃ ps : List Nat, Pivoted n F (us.length + 1) ps ∧ z = ps.length)

theorem zero_table (n m : Nat) : Matrix.zero n m = table n m fun _ _ => 0 := by
  simp [Matrix.zero, table, Expr.zero, Expr.int, Expr.rat, map_const']

theorem poses_empty (us : List String) : Poses (empty (us.map .symbol)) us fun _ => True where
  unknowns := rfl
  rows := by
    refine ⟨us.length, fun _ _ => 0, 0, by simp [empty, zero_table], rfl, Nat.zero_le _, by simp,
      fun v => ?_, fun _ => ?_⟩
    · simp [Fulfils, Kernel]
    · exact ⟨[], ⟨by simp, by simp, .nil, by simp, by simp, by simp, by simp⟩, rfl⟩

theorem sum_point (us : List String) (g : Nat → ℚ) (v : String → ℚ) :
    ∑ j ∈ Finset.range (us.length + 1), g j * point us v j =
      ∑ j : Fin us.length, g j * v us[j] - g us.length := by
  rw [Finset.sum_range_succ, Finset.sum_range, sub_eq_add_neg]
  simp [point]

/-! ### More rows -/

def padded (n : Nat) (F : Nat → Nat → ℚ) (i j : Nat) : ℚ := if i < n then F i j else 0

theorem table_append (n k m : Nat) (F : Nat → Nat → ℚ) :
    table n m F ++ table k m (fun _ _ => 0) = table (n + k) m (padded n F) := by
  rw [table, table, table, range_add, map_append, map_map]
  congr 1
  · exact map_congr_left fun i hi => by simp [padded, List.mem_range.1 hi]
  · exact map_congr_left fun i _ => by simp [padded]

theorem kernel_padded {k m : Nat} {x : Nat → ℚ} :
    Kernel (n + k) m (padded n F) x ↔ Kernel n m F x := by
  constructor
  · intro h i hi
    simpa [padded, hi] using h i (by omega)
  · intro h i _
    by_cases hi : i < n
    · simpa [padded, hi] using h i hi
    · simp [padded, hi]

theorem pivoted_padded {c : Nat} {ps : List Nat} (h : Pivoted n F c ps) (k : Nat) :
    Pivoted (n + k) (padded n F) c ps := by
  have hrow : ∀ i p, ps[i]? = some p → padded n F i = F i := by
    intro i p hi
    have hin := (List.getElem?_eq_some_iff.1 hi).1.trans_le h.le
    funext j
    exact if_pos hin
  refine ⟨h.le.trans (Nat.le_add_right n k), h.lt, h.sorted, fun i _ hle j hj => ?_,
    fun i p hi => ?_, fun i p hi => ?_,
    fun i p hi k _ hki => ?_⟩
  · rw [padded]
    split
    · exact h.below i ‹_› hle j hj
    · rfl
  · rw [hrow i p hi]
    exact h.lead i p hi
  · rw [hrow i p hi]
    exact h.left i p hi
  · rw [padded]
    split
    · exact h.alone i p hi k ‹_› hki
    · rfl

theorem Poses.resize (h : Poses s us S) (k : Nat) : Poses (s.resize k) us S ∧
    ∃ z : Nat, (s.resize k).nextZeroRow = z ∧ z + k ≤ (s.resize k).matrix.length := by
  obtain ⟨n, F, z, hm, hz, hzn, hzero, hS, hred⟩ := h.rows
  rw [LinearSystem.resize]
  split
  · have hcols : s.columns = us.length + 1 := by simp [columns, h.unknowns]
    have htable : s.matrix ++ Matrix.zero k s.columns = table (n + k) (us.length + 1)
      (padded n F) := by
      rw [hm, hcols, zero_table, table_append]
    refine ⟨⟨h.unknowns, n + k, _, z, htable, hz,
      by omega, fun i hi hzi j hj => ?_, fun v => ?_, fun hr => ?_⟩,
      z, hz, by simp [htable]; omega⟩
    · rw [padded]
      split
      · exact hzero i ‹_› hzi j hj
      · rfl
    · exact kernel_padded.trans (hS v)
    · obtain ⟨ps, hps, hlen⟩ := hred hr
      exact ⟨ps, pivoted_padded hps k, hlen⟩
  · rw [hm, hz, length_table] at *
    exact ⟨⟨h.unknowns, h.rows⟩, z, hz, by omega⟩

/-! ### More equations -/

/-- A linear form in given symbols is its constant part and its part in each of them. -/
theorem form_eq (hnd : us.Nodup) (hf : ∀ t, f (some t) ≠ 0 → t ∈ us) :
    f = const (f none) + (us.map fun u => f (some u) • symbol u).sum := by
  classical
  ext x
  rw [Finsupp.add_apply, ← Finsupp.applyAddHom_apply x (List.sum _), map_list_sum, map_map]
  cases x with
  | none => simp [const, symbol, Function.comp_def]
  | some t =>
    have hterm : ∀ u, (Finsupp.applyAddHom (some t) ∘ fun u => f (some u) • symbol u) u =
        if u = t then f (some u) else 0 := by
      intro u
      simp [symbol, Finsupp.single_apply]
    have hcount : f (some t) = 0 ∨ us.count t = 1 :=
      or_iff_not_imp_left.2 fun h => count_eq_one_of_mem hnd (hf t h)
    rw [map_congr_left fun u _ => hterm u, sum_map_ite_eq]
    rcases hcount with h | h <;> simp [const, h]

theorem value_eq (hnd : us.Nodup) (hf : ∀ t, f (some t) ≠ 0 → t ∈ us) (v : String → ℚ) :
    value v f = f none + (us.map fun u => f (some u) * v u).sum := by
  conv_lhs => rw [form_eq hnd hf]
  simp [map_list_sum, Function.comp_def]

/-- The coefficients of a form, as a row. -/
def rowOf (us : List String) (f : Form) (j : Nat) : ℚ := (us[j]?).elim (-f none) fun u => f (some u)

theorem sum_rowOf (hnd : us.Nodup) (hf : ∀ t, f (some t) ≠ 0 → t ∈ us) (v : String → ℚ) :
    ∑ j ∈ Finset.range (us.length + 1), rowOf us f j * point us v j = value v f := by
  rw [sum_point, value_eq hnd hf, ← Fin.sum_univ_fun_getElem]
  simp [rowOf, add_comm]

theorem rest_eq (hA : A.Linear) (hnd : us.Nodup) (he : Stands e f)
    (hf : ∀ t, f (some t) ≠ 0 → t ∈ us) :
    A.sub e (A.add (zipWith (fun u c => A.mul [u, c]) (us.map .symbol)
      ((us.map Expr.symbol).map (Coefficient.of A e)))) = .rat (f none) := by
  have hco : Forall₂ Stands (zipWith (fun u c => A.mul [u, c]) (us.map .symbol)
    ((us.map Expr.symbol).map (Coefficient.of A e)))
      (us.map fun u => f (some u) • symbol u) := by
    rw [map_map, zipWith_map, zipWith_self, forall₂_map_left_iff, forall₂_map_right_iff]
    refine forall₂_same.2 fun u _ => ?_
    rw [Function.comp_apply, he.coefficient hA]
    exact hA.mul2 _ (stands_sym u)
  have hsub := hA.sub he (hA.add hco)
  rw [sub_eq_iff_eq_add.2 (form_eq hnd hf)] at hsub
  exact hsub.eq_rat

theorem modify_table {m z : Nat} {g : List Expr → List Expr} {w : Nat → ℚ}
    (hg : g ((List.range m).map fun j => .rat (F z j)) = (List.range m).map fun j => .rat (w j)) :
    (table n m F).modify z g = table n m (Function.update F z w) := by
  refine ext_getElem (by simp) fun i _ _ => ?_
  rw [getElem_modify, getElem_table, getElem_table]
  by_cases hi : z = i
  · subst hi
    simp [hg]
  · simp [hi, Ne.symm hi]

theorem row_filled (us : List String) (f : Form) (r : List Expr) (hr : r.length = us.length + 1) :
    ((us.map fun u => Expr.rat (f (some u))) ++ r.drop us.length).set us.length (.rat (-f none)) =
      (List.range (us.length + 1)).map fun j => .rat (rowOf us f j) := by
  refine ext_getElem (by simp [hr]) fun j h₁ h₂ => ?_
  simp only [length_map, List.length_range] at h₂
  rw [getElem_set]
  by_cases hj : us.length = j
  · simp [← hj, rowOf]
  · have hlt : j < us.length := by omega
    simp [hj, hlt, rowOf]

theorem fulfils_update (hnd : us.Nodup) (hf : ∀ t, f (some t) ≠ 0 → t ∈ us) {z : Nat} (hz : z < n)
    (h0 : ∀ j < us.length + 1, F z j = 0) (v : String → ℚ) :
    Fulfils n us (Function.update F z (rowOf us f)) v ↔ Fulfils n us F v ∧ value v f = 0 := by
  rw [← sum_rowOf hnd hf]
  constructor
  · intro h
    refine ⟨fun i hi => ?_, by simpa using h z hz⟩
    by_cases hiz : i = z
    · exact Finset.sum_eq_zero fun j hj => by rw [hiz, h0 j (Finset.mem_range.1 hj), zero_mul]
    · simpa [hiz] using h i hi
  · rintro ⟨h, hrow⟩ i hi
    by_cases hiz : i = z
    · simpa [hiz] using hrow
    · simpa [hiz] using h i hi

/-- An equation that is linear in the unknowns is added. -/
theorem Poses.add (hA : A.Linear) (hnd : us.Nodup) (h : Poses s us S) (he : Stands e f)
    (hf : ∀ t, f (some t) ≠ 0 → t ∈ us) :
    ∃ t, LinearSystem.add A s e = (t, .ok ()) ∧ Poses t us (fun v => S v ∧ value v f = 0) ∧
      t.isReduced = false := by
  obtain ⟨h', z, hz, hlt⟩ := h.resize 1
  obtain ⟨n, F, z', hm, hz', -, hzero, hS, -⟩ := h'.rows
  obtain rfl : z = z' := by exact_mod_cast hz.symm.trans hz'
  rw [hm, length_table] at hlt
  have hindex : (s.resize 1).rowIndex (s.resize 1).nextZeroRow = z := by
    have hneg : ¬(z : Int) < 0 := by omega
    simp [rowIndex, hz, hneg]
  have hcs : (us.map Expr.symbol).map (Coefficient.of A e) = us.map fun u => .rat (f (some u)) := by
    rw [map_map]
    exact map_congr_left fun u _ => he.coefficient hA u
  have hsym : (Expr.rat (f none)).hasSymbols = false := rfl
  have hneg : A.neg (.rat (f none)) = .rat (-f none) := by
    have h := hA.neg (stands_rat (f none))
    rw [show -const (f none) = const (-f none) by simp [const]] at h
    exact h.eq_rat
  rw [LinearSystem.add]
  simp only [he.expand hA, hindex, h'.unknowns, rest_eq hA hnd he hf, hsym, Bool.false_eq_true,
    if_false, hneg, columns, length_map,
    Nat.add_sub_cancel]
  refine ⟨_, rfl, ⟨rfl, n, Function.update F z (rowOf us f), z + 1, ?_,
    by simp [hz], by omega, fun i hi hzi j hj => ?_,
    fun v => ?_, fun hr => by simp at hr⟩, rfl⟩
  · dsimp only
    rw [setEntry, modify_modify_eq, hm]
    refine modify_table ?_
    rw [Function.comp_apply, hcs, row_filled us f _ (by simp)]
  · rw [Function.update_of_ne (by omega)]
    exact hzero i hi (by omega) j hj
  · rw [fulfils_update hnd hf (by omega) (hzero z (by omega) le_rfl), hS]

/-- Equations that are linear in the unknowns are added one after the other. -/
theorem Poses.addAll (hA : A.Linear) (hnd : us.Nodup) (h : Poses s us S) {es : List Expr}
    {fs : List Form}
    (hes : Forall₂ Stands es fs) (hfs : ∀ f ∈ fs, ∀ t, f (some t) ≠ 0 → t ∈ us) :
    ∃ t, LinearSystem.addAll A s es = (t, .ok ()) ∧ Poses t us fun v => S v ∧ ∀ f ∈ fs,
      value v f = 0 := by
  suffices hrun : ∀ (g : LinearSystem × Outcome Unit → Expr → LinearSystem × Outcome Unit),
    (∀ s e, g (s, .ok ()) e = s.add A e) →
      ∀ s S, Poses s us S → ∃ t, es.foldl g (s, .ok ()) = (t, .ok ()) ∧ Poses t us fun v => S v ∧
        ∀ f ∈ fs, value v f = 0 from
    hrun _ (fun _ _ => rfl) _ S (h.resize es.length).1
  intro g hg
  clear h
  induction hes with
  | nil => exact fun s S h => ⟨s, rfl, by simpa using h⟩
  | cons he _ ih =>
    intro s S h
    obtain ⟨t, ht, hposes, -⟩ := h.add hA hnd he (hfs _ mem_cons_self)
    obtain ⟨t', ht', hposes'⟩ := ih (fun f hf => hfs f (mem_cons_of_mem _ hf)) t _ hposes
    refine ⟨t', ?_, ?_⟩
    · rw [foldl_cons, hg, ht, ht']
    · simpa [and_assoc] using hposes'

/-! ### Reduction -/

theorem firstZeroRow_table {m : Nat} {ps : List Nat} (h : Pivoted n F m ps) (hps : ps ≠ []) :
    firstZeroRow (table n m F) = ps.length := by
  have hnull : ∀ i, (((List.range m).map fun j => Expr.rat (F i j)).all isNull) =
    decide (∀ j < m, F i j = 0) := by
    intro i
    rw [Bool.eq_iff_iff]
    simp [isNull_rat]
  obtain ⟨q, hq⟩ := Nat.exists_eq_succ_of_ne_zero (length_pos_iff.2 hps).ne'
  obtain ⟨k, rfl⟩ := Nat.exists_eq_add_of_le h.le
  have hlast : ¬∀ j < m, F q j = 0 := by
    intro h0
    have hp : ps[q]? = some (ps.get ⟨q, by omega⟩) := List.getElem?_eq_getElem _
    exact h.lead q _ hp (h0 _ (h.lt _ (mem_of_getElem? hp)))
  have hzeros : ((table (ps.length + k) m F).reverse.takeWhile fun r => r.all isNull).length =
    k := by
    rw [table, range_add, map_append, reverse_append, takeWhile_append_of_pos, hq, range_succ,
      map_append, reverse_append]
    · simp [hnull, hlast]
    · intro r hr
      simp only [mem_reverse, mem_map, List.mem_range, exists_exists_and_eq_and] at hr
      obtain ⟨i, hi, rfl⟩ := hr
      rw [hnull, decide_eq_true_eq]
      exact h.below _ (by omega) (by omega)
  rw [firstZeroRow, hzeros, length_table, if_neg (by omega)]
  omega

theorem Poses.reduce (hA : A.Linear) (h : Poses s us S) (hS : ∃ v, ¬S v) :
    Poses (s.reduce A) us S ∧ (s.reduce A).isReduced = true := by
  rw [LinearSystem.reduce]
  split
  · exact ⟨h, ‹_›⟩
  · obtain ⟨n, F, z, hm, hz, hzn, hzero, hfull, -⟩ := h.rows
    obtain ⟨G, ps, hG, hker, hpiv⟩ := reduced_table (n := n) (m := us.length + 1) (F := F) hA
    have hps : ps ≠ [] := by
      rintro rfl
      obtain ⟨v, hv⟩ := hS
      refine hv ((hfull v).1 ((hker _).1 fun i hi => Finset.sum_eq_zero fun j hj => ?_))
      rw [hpiv.below i hi (Nat.zero_le i) j (Finset.mem_range.1 hj), zero_mul]
    refine ⟨⟨h.unknowns, n, G, ps.length,
      by rw [hm, hG], ?_, hpiv.le, hpiv.below, fun v => ?_, fun _ => ⟨ps, hpiv, rfl⟩⟩, rfl⟩
    · dsimp only
      rw [hm, hG, firstZeroRow_table hpiv hps]
    · exact (hker _).trans (hfull v)

/-! ### The structure of the solutions -/

/-- Equations with pivots have a solution unless the last pivot stands on the right side. -/
theorem exists_fulfils_iff (hnd : us.Nodup) {ps : List Nat} {r p : Nat}
    (h : Pivoted n F (us.length + 1) ps)
    (hr : ps.length = r + 1) (hp : ps[r]? = some p) : (∃ v, Fulfils n us F v) ↔ p ≠ us.length := by
  constructor
  · rintro ⟨v, hv⟩ rfl
    have hrow := hv r (by have := h.le; omega)
    rw [Finset.sum_range_succ, Finset.sum_eq_zero fun j hj => by
      rw [h.left r _ hp j (Finset.mem_range.1 hj), zero_mul]] at hrow
    exact h.lead r _ hp (by simpa [point] using hrow)
  · intro hne
    -- Pivot unknowns take the right side of their row, all others are zero.
    let x : Nat → ℚ := fun j => if j ∈ ps then F (ps.idxOf j) us.length / F (ps.idxOf j) j else 0
    refine ⟨fun t => x (us.idxOf t), fun i hi => ?_⟩
    have hpoint : ∀ j < us.length, point us (fun t => x (us.idxOf t)) j = x j := by
      intro j hj
      simp [point, hj, hnd.idxOf_getElem]
    rw [Finset.sum_range_succ, Finset.sum_congr rfl fun j hj =>
      by rw [hpoint j (Finset.mem_range.1 hj)]]
    by_cases hir : ps.length ≤ i
    · have h0 := h.below i hi hir
      simp only [h0 us.length (Nat.lt_succ_self _), zero_mul, add_zero]
      exact Finset.sum_eq_zero fun j hj =>
        by rw [h0 j (by have := Finset.mem_range.1 hj; omega), zero_mul]
    · have hq : ps[i]? = some (ps.get ⟨i, by omega⟩) := List.getElem?_eq_getElem _
      have hpair := pairwise_iff_getElem.1 h.sorted
      generalize ps.get ⟨i, by omega⟩ = q at hq
      have hqk : q < us.length := by
        obtain ⟨hr', rfl⟩ := List.getElem?_eq_some_iff.1 hp
        obtain ⟨hi', rfl⟩ := List.getElem?_eq_some_iff.1 hq
        have := h.lt _ (mem_of_getElem? hp)
        rcases Nat.lt_or_ge i r with hlt | hge
        · have := hpair i r hi' hr' hlt
          omega
        · obtain rfl : i = r := by omega
          omega
      have hidx : ∀ {i j}, ps[i]? = some j → ps.idxOf j = i := by
        intro i j hij
        obtain ⟨hi, rfl⟩ := List.getElem?_eq_some_iff.1 hij
        exact Nodup.idxOf_getElem (h.sorted.imp ne_of_lt) i hi
      rw [Finset.sum_eq_single q]
      · simp [x, mem_of_getElem? hq, hidx hq, point, mul_div_cancel₀ _ (h.lead i q hq)]
      · intro j _ hjq
        by_cases hj : j ∈ ps
        · obtain ⟨i', hi'⟩ := mem_iff_getElem?.1 hj
          rw [h.alone i' j hi' i hi (by rintro rfl; exact hjq (by simpa [hq] using hi'.symm)),
            zero_mul]
        · simp [x, hj]
      · simp [hqk]

/-- The structure of the solutions is found, and there are none exactly when it says so. -/
theorem Poses.solutionStructure (hA : A.Linear) (hnd : us.Nodup) (hus : us ≠ []) (h : Poses s us S)
    (hS : ∃ v, ¬S v) :
    ∃ k, s.solutionStructure A = .ok k ∧ (k = .none ↔ ¬∃ v, S v) := by
  obtain ⟨h', hred⟩ := h.reduce hA hS
  obtain ⟨n, F, z, hm, hz, -, -, hfull, hpivots⟩ := h'.rows
  obtain ⟨ps, hpiv, rfl⟩ := hpivots hred
  have hps : ps ≠ [] := by
    rintro rfl
    obtain ⟨v, hv⟩ := hS
    refine hv ((hfull v).1 fun i hi => Finset.sum_eq_zero fun j hj => ?_)
    rw [hpiv.below i hi (Nat.zero_le i) j (Finset.mem_range.1 hj), zero_mul]
  obtain ⟨r, hr⟩ := Nat.exists_eq_succ_of_ne_zero (length_pos_iff.2 hps).ne'
  have hp : ps[r]? = some (ps.get ⟨r, by omega⟩) := List.getElem?_eq_getElem _
  generalize ps.get ⟨r, by omega⟩ = p at hp
  have hsol : (∃ v, S v) ↔ p ≠ us.length := by
    rw [← exists_fulfils_iff hnd hpiv hr hp]
    exact exists_congr fun v => (hfull v).symm
  have hrn : r < n := by have := hpiv.le; omega
  have hle := hpiv.le_pivot hp
  have hlt := hpiv.lt p (mem_of_getElem? hp)
  have hlead := hpiv.lead r p hp
  have hleft := hpiv.left r p hp
  obtain ⟨k, hk⟩ := Nat.exists_eq_succ_of_ne_zero (length_pos_iff.2 hus).ne'
  have hrow := row_table (m := us.length + 1) (F := F) hrn
  have hi : ((r.succ : Nat) : Int) - 1 = r := by omega
  have h0 : ¬((r.succ : Nat) : Int) = 0 := by omega
  have hneg : ¬(r : Int) < 0 := by omega
  have hge : ¬(r : Int) ≥ n := by omega
  have htwo : ¬us.length + 1 < 2 := by omega
  have hbefore : us.length + 1 - 2 = k := by omega
  have hall : ((((List.range (us.length + 1)).map fun j => Expr.rat (F r j)).take k).all isNull) =
    decide (∀ j < k, F r j = 0) := by
    rw [Bool.eq_iff_iff, ← map_take, take_range, min_eq_left (by omega)]
    simp [isNull_rat]
  have hright : F r k = 0 → (∀ j < k, F r j = 0) → p = us.length := by
    intro hk0 hbefore0
    by_contra hne
    rcases Nat.lt_or_ge p k with hpk | hpk
    · exact hlead (hbefore0 p hpk)
    · exact hlead ((show p = k by omega) ▸ hk0)
  simp only [LinearSystem.solutionStructure, hz, hm, hr, length_table, h'.unknowns, length_map, hi,
    h0, hneg, hge, if_false,
    Int.toNat_natCast, hrow, List.length_range, Nat.add_sub_cancel, htwo, decide_false,
      Bool.or_self, Bool.false_eq_true,
    getD_range_map (Nat.lt_succ_self _), isNull_rat, hbefore,
      getD_range_map (show k < us.length + 1 by omega), hall, hsol]
  rw [not_not]
  by_cases hmore : ((r.succ : Nat) : Int) > us.length
  · exact ⟨.none, if_pos hmore, by simp; omega⟩
  · have hend : (F r k = 0 ∧ ¬F r us.length = 0) ∧ (∀ j < k, F r j = 0) ↔ p = us.length := by
      refine ⟨fun h => hright h.1.1 h.2, ?_⟩
      rintro rfl
      exact ⟨⟨hleft k (by omega), hlead⟩, fun j hj => hleft j (by omega)⟩
    by_cases heq : ((r.succ : Nat) : Int) = us.length
    · have hbefore0 : ∀ j < k, F r j = 0 := fun j hj => hleft j (by omega)
      simp only [heq, lt_self_iff_false, if_false, if_true, pure, Except.pure, Except.ok.injEq,
        exists_eq_left']
      by_cases hp' : p = us.length
      · have := hend.2 hp'
        simp_all
      · have : ¬(F r k = 0 ∧ ¬F r us.length = 0) := fun h => hp' (hend.1 ⟨h, hbefore0⟩)
        simp_all
    · simp only [hmore, heq, if_false, pure, Except.pure, Except.ok.injEq, exists_eq_left']
      by_cases hp' : p = us.length
      · have := hend.2 hp'
        simp_all
      · have := hend.not.2 hp'
        simp_all

end LinearSystem

end StencilForge
