import StencilForge.Proofs.Echelon
import StencilForge.Proofs.Linearity
import StencilForge.Proofs.Periodic
import StencilForge.Proofs.Taylor

/-!
# Proofs — the accuracy of differences

The equations of an order of the Taylor expansion hold exactly when the weights take the products of
as many directions to their derivatives.  So the loop over the orders ends, and what it finds has
the accuracy that it states (`WeightProblem.solve_accuracy`).
-/

open List StencilForge.Form StencilForge.Taylor

namespace StencilForge

/-! ### Tables of sums -/

section Tables

variable {A : Algebra} {t : Table (List Int) Expr} {f : List Int → Form} {K : List Int → Prop}

/-- The table has the keys `K`, each once, and what stands there is the form that `f` gives. -/
structure Tallies (t : Table (List Int) Expr) (K : List Int → Prop) (f : List Int → Form) :
    Prop where
  nodup : (t.map (·.1)).Nodup
  keys  : ∀ k, k ∈ t.map (·.1) ↔ K k
  forms : ∀ x ∈ t, Stands x.2 (f x.1)
  zero  : ∀ k, ¬K k → f k = 0

theorem keys_alter (k : List Int) (φ : Option Expr → Expr) (t : Table (List Int) Expr) :
    (Table.alter k φ t).map (·.1) = if k ∈ t.map (·.1) then t.map (·.1) else t.map (·.1) ++
    [k] := by
  induction t with
  | nil => simp [Table.alter]
  | cons p t ih =>
    by_cases hp : p.1 = k
    · simp [Table.alter, hp]
    · by_cases hk : k ∈ t.map (·.1) <;> simp_all [Table.alter, Ne.symm hp]

theorem mem_alter {k : List Int} {φ : Option Expr → Expr} {x : List Int × Expr}
    (hnd : (t.map (·.1)).Nodup) (hx : x ∈ Table.alter k φ t) :
    x ∈ t ∧ x.1 ≠ k ∨ x = (k, φ (t.get? k)) := by
  induction t with
  | nil => exact .inr (by simpa [Table.alter, Table.get?] using hx)
  | cons p t ih =>
    rw [map_cons, nodup_cons] at hnd
    rw [Table.get?_cons]
    by_cases hp : p.1 = k
    · simp only [Table.alter, hp, BEq.rfl, if_true, mem_cons] at hx ⊢
      rcases hx with rfl | hx
      · exact .inr rfl
      · exact .inl ⟨.inr hx, fun h => hnd.1 (hp.trans h.symm ▸ mem_map_of_mem hx)⟩
    · simp only [Table.alter, beq_iff_eq, hp, if_false, mem_cons] at hx ⊢
      rcases hx with rfl | hx
      · exact .inl ⟨.inl rfl, hp⟩
      · exact (ih hnd.2 hx).imp_left fun h => ⟨.inr h.1, h.2⟩

theorem mem_of_get?_eq_some {k : List Int} {e : Expr} (h : t.get? k = some e) : (k, e) ∈ t := by
  obtain ⟨x, hx, rfl⟩ := Option.map_eq_some_iff.1 h
  have hk := find?_some hx
  rw [beq_iff_eq] at hk
  exact hk ▸ mem_of_find?_eq_some hx

theorem Tallies.alter (hA : A.Linear) (h : Tallies t K f) {k : List Int} {e : Expr} {g : Form}
    (he : Stands e g) :
    Tallies (Table.alter k (fun v => A.add2 (v.getD .zero) e) t) (fun j => K j ∨ j = k) fun j =>
      f j + if j = k then g else 0 := by
  refine ⟨?_, fun j => ?_, fun x hx => ?_, fun j hj => ?_⟩
  · rw [keys_alter]
    split
    · exact h.nodup
    · exact h.nodup.append (nodup_singleton k) (disjoint_singleton.2 ‹_›)
  · rw [keys_alter, ← h.keys]
    split
    · exact ⟨.inl, fun hj => hj.elim id fun hj => hj ▸ ‹_›⟩
    · simp
  · rcases mem_alter h.nodup hx with ⟨hx, hne⟩ | rfl
    · simpa [hne] using h.forms x hx
    · simp only [if_true]
      refine hA.add2 ?_ he
      cases hget : t.get? k with
      | none =>
        have hk : ¬K k := by
          rw [← h.keys]
          intro hmem
          obtain ⟨x, hxt, rfl⟩ := mem_map.1 hmem
          exact find?_eq_none.1 (Option.map_eq_none_iff.1 hget) x hxt (beq_self_eq_true _)
        rw [h.zero k hk]
        exact stands_zero
      | some v => exact h.forms _ (mem_of_get?_eq_some hget)
  · rw [not_or] at hj
    simp [h.zero j hj.1, hj.2]

theorem Tallies.foldl {β : Type} {step : Table (List Int) Expr → β → Table (List Int) Expr}
    {J : β → List Int → Prop} {g : β → List Int → Form} {xs : List β}
    (hstep : ∀ x ∈ xs, ∀ t K f, Tallies t K f → Tallies (step t x) (fun k => K k ∨ J x k) fun k =>
      f k + g x k) (h : Tallies t K f) :
    Tallies (xs.foldl step t) (fun k => K k ∨ ∃ x ∈ xs, J x k) fun k =>
      f k + (xs.map (g · k)).sum := by
  induction xs generalizing t K f with
  | nil => simpa using h
  | cons x xs ih =>
    simpa [or_assoc, add_assoc] using ih (fun y hy => hstep y (mem_cons_of_mem _ hy))
      (hstep x mem_cons_self t K f h)

end Tables

namespace WeightProblem

variable {A : Algebra} {n m : Nat} {α : List (Fin n)} {S : Stencil} {dx : ℚ} {p : WeightProblem}
    {d : List Int}

def weightName (d : List Int) : String := "w_(" ++ ",".intercalate (d.map toString) ++ ")"

theorem comma_notMem (c : Int) : ',' ∉ (toString c).toList := by
  rw [Int.toString_eq_repr, Int.repr_eq_if]
  have hdigits : ∀ m : Nat, ',' ∉ Nat.toDigits 10 m := fun m h =>
    absurd (Nat.isDigit_of_mem_toDigits (by decide) (by decide) h) (by decide)
  split <;> simp [hdigits]

theorem weightName_injective {d d' : List Int} (hd : d ≠ []) (hd' : d' ≠ [])
    (h : weightName d = weightName d') : d = d' := by
  have hs : ",".intercalate (d.map toString) = ",".intercalate (d'.map toString) := by
    simpa [weightName] using h
  have hl := congrArg String.toList hs
  rw [String.toList_intercalate, String.toList_intercalate] at hl
  have hsplit := congrArg (List.splitOn ',') hl
  have hc : ∀ {d : List Int}, ∀ l ∈ (d.map toString).map String.toList, ',' ∉ l := by
    intro d l hl
    simp only [map_map, mem_map, Function.comp_apply] at hl
    obtain ⟨c, -, rfl⟩ := hl
    exact comma_notMem c
  rw [show ",".toList = [','] from rfl, splitOn_intercalate _ hc (by simpa using hd),
    splitOn_intercalate _ hc (by simpa using hd')] at hsplit
  have hinj : Function.Injective fun c : Int => (toString c).toList := fun a b hab => by
    simpa using String.toList_injective hab
  rw [map_map, map_map] at hsplit
  exact List.map_injective_iff.2 hinj hsplit

/-- A tuple of directions, sorted. -/
def key (o : List (Fin n)) : List Int := (o.map fun i => (i.val : Int)).mergeSort (· ≤ ·)

theorem key_eq_iff {o o' : List (Fin n)} : key o = key o' ↔ o.Perm o' := by
  have hinj : Function.Injective fun i : Fin n => (i.val : Int) :=
    fun i j h => Fin.ext (by simpa using h)
  have hsort : ∀ l : Ints, (l.mergeSort (· ≤ ·)).Pairwise fun a b => decide (a ≤ b) = true :=
    pairwise_mergeSort (by simpa using fun a b c => le_trans) (by simpa using le_total)
  rw [← map_perm_map_iff hinj]
  constructor
  · exact fun h => (mergeSort_perm _ _).symm.trans ((Perm.of_eq h).trans (mergeSort_perm _ _))
  · intro h
    refine ((mergeSort_perm _ _).trans (h.trans (mergeSort_perm _ _).symm)).eq_of_pairwise
      (fun a b _ _ hab hba => ?_) (hsort _) (hsort _)
    simp only [decide_eq_true_eq] at hab hba
    omega

theorem tuples_eq (n m : Nat) : tuples n m = (Taylor.tuples n m).map (·.map (·.val)) := by
  induction m with
  | zero => rfl
  | succ m ih =>
    rw [tuples, Taylor.tuples, ih, ← map_coe_finRange_eq_range, flatMap_map, map_flatMap]
    simp only [map_map, Function.comp_def, map_cons]

theorem mem_tuples {o : List (Fin n)} : o ∈ Taylor.tuples n m ↔ o.length = m := by
  induction m generalizing o with
  | zero => simp [Taylor.tuples]
  | succ m ih => cases o <;> simp [Taylor.tuples, ih]

/-- Where a point of a stencil lies. -/
def place (dx : ℚ) (d : List Int) (i : Fin n) : ℚ := dx * d.getD i 0

/-- The problem of a derivative on a stencil, without assumptions on the weights. -/
structure Plain (p : WeightProblem) (α : List (Fin n)) (S : Stencil) (dx : ℚ) : Prop where
  dimension  : p.dimension = n
  derivative : p.derivative = key α
  stencil    : p.stencil = S
  dx         : p.dx = .rat dx
  weights    : ∀ d ∈ S, Table.get? p.weights d = some (.symbol (weightName d))
  length     : ∀ d ∈ S, d.length = n

noncomputable def termForm (m : Nat) (dx : ℚ) (d : List Int) (o : List (Fin n)) : Form :=
  ((m.factorial : ℚ)⁻¹ * (o.map (place dx d)).prod) • symbol (weightName d)

theorem stands_term (hA : A.Linear) (hd : d.length = n) (o : List (Fin n)) :
    Stands (A.mul [A.quotient (.symbol (weightName d)) (.int (Expand.factorial o.length)),
      A.prod ((o.map (·.val)).map fun k => (d.map fun c => A.mul [.rat dx, .int c]).getD k .zero)])
        (termForm o.length dx d o) := by
  have hfact : ∀ m, Expand.factorial m = m.factorial := by
    intro m
    induction m with
    | zero => rfl
    | succ m ih => rw [Expand.factorial, ih, Nat.factorial]
  have hprod : ∀ (xs : List ℚ) (q : ℚ), (xs.map Expr.rat).foldl A.mul2
    (.rat q) = .rat (q * xs.prod) := by
    intro xs
    induction xs with
    | nil => simp
    | cons x xs ih => intro q; simp [Algebra.mul2, hA.rat_mul, ih, mul_assoc]
  have hpoint : (o.map (·.val)).map (fun k => (d.map fun c => A.mul [.rat dx, .int c]).getD k .zero)
    =
      (o.map (place dx d)).map .rat := by
    rw [map_map, map_map]
    refine map_congr_left fun i _ => ?_
    have hi : i.val < d.length := hd ▸ i.isLt
    simp only [Function.comp_apply, place]
    simpa [hi, Expr.int, Expr.rat] using hA.rat_mul dx d[i.val]
  have hone : A.prod ((o.map (place dx d)).map .rat) = .rat (o.map (place dx d)).prod := by
    simpa [Algebra.prod, Expr.one, Expr.int, Expr.rat] using hprod (o.map (place dx d)) 1
  have hdiv : Stands (A.quotient (.symbol (weightName d)) (.int (Expand.factorial o.length)))
      ((o.length.factorial : ℚ)⁻¹ • symbol (weightName d)) := by
    have h := hA.div (show (o.length.factorial : ℚ) ≠ 0 by positivity) (stands_sym (weightName d))
    simpa [Algebra.quotient, hfact, Expr.symbol, Expr.int, Expr.rat] using h
  rw [hpoint, hone, termForm, mul_comm, mul_smul]
  exact hA.mul2 _ hdiv

/-- A term of the expansion added to those of its directions. -/
def addTerm (A : Algebra) (m : Nat) (dx : ℚ) (d : List Int) (t : Table (List Int) Expr)
    (o : List (Fin n)) : Table (List Int) Expr :=
  Table.alter (key o) (fun v => A.add2 (v.getD .zero)
    (A.mul [A.quotient (.symbol (weightName d)) (.int (Expand.factorial m)),
    A.prod ((o.map (·.val)).map fun k => (d.map fun c => A.mul [.rat dx, .int c]).getD k .zero)])) t

def sumTerms (A : Algebra) (n m : Nat) (dx : ℚ) (S : Stencil) : Table (List Int) Expr :=
  S.foldl (fun t d => (Taylor.tuples n m).foldl (addTerm A m dx d) t) []

theorem errorTerms_eq (hp : Plain p α S dx) (m : Nat) :
    errorTerms A p m = (Table.get? (sumTerms A n m dx S) (key α)).elim
    (sumTerms A n m dx S) fun v => Table.insert (sumTerms A n m dx S) (key α) (A.sub v .one) := by
  have hterms : p.stencil.foldl (fun (t : Table (List Int) Expr) d => (tuples p.dimension m).foldl
    (fun t off =>
      Table.alter ((off.map Int.ofNat).mergeSort (· ≤ ·)) (fun v => A.add2 (v.getD .zero)
        (A.mul [A.quotient ((Table.get? p.weights d).getD .zero) (.int (Expand.factorial m)),
          A.prod (off.map fun k => (d.map fun c => A.mul [p.dx, .int c]).getD k .zero)])) t) t) [] =
            sumTerms A n m dx S := by
    rw [hp.stencil, hp.dimension, hp.dx, tuples_eq, sumTerms]
    refine foldl_ext _ _ _ fun t d hd => ?_
    rw [hp.weights d hd, foldl_map]
    refine foldl_ext _ _ _ fun t o _ => ?_
    rw [addTerm, key, map_map]
    rfl
  simp only [errorTerms, hterms, hp.derivative]

noncomputable def sumForm (dx : ℚ) (S : Stencil) (n m : Nat) (k : List Int) : Form :=
  (S.map fun d => ((Taylor.tuples n m).map fun o => if k =
    key o then termForm m dx d o else 0).sum).sum

theorem sumTerms_tallies (hA : A.Linear) (dx : ℚ) (hlen : ∀ d ∈ S, d.length = n) (hS : S ≠ [])
    (m : Nat) :
    Tallies (sumTerms A n m dx S) (fun k => ∃ o : List (Fin n), o.length = m ∧ k = key o)
      (sumForm dx S n m) := by
  have hstart : Tallies ([] : Table (List Int) Expr) (fun _ => False) fun _ => 0 :=
    ⟨nodup_nil, by simp, by simp, fun _ _ => rfl⟩
  have hterm : ∀ d ∈ S, ∀ o ∈ Taylor.tuples n m, ∀ t K f, Tallies t K f →
    Tallies (addTerm A m dx d t o) (fun k => K k ∨ k = key o)
      fun k => f k + if k = key o then termForm m dx d o else 0 := by
    intro d hd o ho t K f ht
    obtain rfl := mem_tuples.1 ho
    exact ht.alter hA (stands_term hA (hlen d hd) o)
  have hrun := hstart.foldl fun d hd t K f ht => ht.foldl (hterm d hd)
  obtain ⟨d, hd⟩ := exists_mem_of_ne_nil S hS
  convert hrun using 1
  · rfl
  · funext k
    simp only [mem_tuples, false_or, exists_and_right, eq_iff_iff]
    exact ⟨fun h => ⟨⟨d, hd⟩, h⟩, fun h => h.2⟩
  · funext k
    rw [sumForm, zero_add]

/-- What the equation of a tuple of directions says of the weights. -/
noncomputable def momentForm (dx : ℚ) (S : Stencil) (α : List (Fin n)) (m : Nat) (k : List Int) :
    Form :=
  sumForm dx S n m k - if k = key α then const 1 else 0

/-- The equations of an order are those of the tuples of that length. -/
theorem errorTerms_forms (hA : A.Linear) (hp : Plain p α S dx) (hS : S ≠ []) (m : Nat) :
    (∀ k, k ∈ (errorTerms A p m).map (·.1) ↔ ∃ o : List (Fin n), o.length = m ∧ k = key o) ∧
      ∀ x ∈ errorTerms A p m, Stands x.2 (momentForm dx S α m x.1) := by
  have hT := sumTerms_tallies hA dx hp.length hS m
  have hforms : ∀ x ∈ sumTerms A n m dx S, x.1 ≠ key α → Stands x.2 (momentForm dx S α m x.1) := by
    intro x hx hne
    simpa [momentForm, hne] using hT.forms x hx
  rw [errorTerms_eq hp]
  cases hget : Table.get? (sumTerms A n m dx S) (key α) with
  | none =>
    refine ⟨hT.keys, fun x hx => hforms x hx fun hk => ?_⟩
    exact find?_eq_none.1 (Option.map_eq_none_iff.1 hget) x hx (beq_iff_eq.2 hk)
  | some v =>
    have hmem := mem_of_get?_eq_some hget
    rw [Option.elim_some, Table.insert]
    refine ⟨fun k => ?_, fun x hx => ?_⟩
    · rw [keys_alter, if_pos (mem_map.2 ⟨_, hmem, rfl⟩)]
      exact hT.keys k
    · rcases mem_alter hT.nodup hx with ⟨hx, hne⟩ | rfl
      · exact hforms x hx hne
      · simpa [momentForm, Expr.one, Expr.int, Expr.rat] using hA.sub (hT.forms _ hmem)
          (stands_rat 1)

/-- The weights that values of the symbols give. -/
def weightsAt (S : Stencil) (v : String → ℚ) : List ℚ := S.map fun d => v (weightName d)

/-- The weights take products of `m` directions to their derivatives. -/
def ExactAt (dx : ℚ) (S : Stencil) (α : List (Fin n)) (ws : List ℚ) (m : Nat) : Prop :=
  ∀ o : List (Fin n), o.length = m → difference (S.map (place dx)) ws (power o) = derivativeAt α
    (power o)

theorem difference_power (v : String → ℚ) (o : List (Fin n)) :
    difference (S.map (place dx)) (weightsAt S v) (power o) =
    (S.map fun d => v (weightName d) * (o.map (place dx d)).prod).sum := by
  rw [difference_apply, weightsAt, zipWith_map, zipWith_self]
  simp only [eval_power]

theorem value_sumForm (v : String → ℚ) (o : List (Fin n)) :
    value v (sumForm dx S n o.length (key o)) =
    (o.length.factorial : ℚ)⁻¹ * ((Taylor.tuples n o.length).countP fun o' => o'.isPerm o) *
      difference (S.map (place dx)) (weightsAt S v) (power o) := by
  rw [sumForm, difference_power, ← sum_map_mul_left, map_list_sum, map_map]
  congr 1
  refine map_congr_left fun d _ => ?_
  have hterm : ∀ o' : List (Fin n), value v
    (if key o = key o' then termForm o.length dx d o' else 0) =
      if o'.isPerm o then (o.length.factorial : ℚ)⁻¹ *
        (v (weightName d) * (o.map (place dx d)).prod) else 0 := by
    intro o'
    by_cases hperm : o'.Perm o
    · rw [if_pos (key_eq_iff.2 hperm.symm), if_pos (isPerm_iff.2 hperm), termForm, map_smul,
        value_symbol, (hperm.map _).prod_eq]
      simp only [smul_eq_mul]
      ring
    · rw [if_neg fun h => hperm (key_eq_iff.1 h).symm, if_neg fun h => hperm (isPerm_iff.1 h),
        map_zero]
  rw [Function.comp_apply, map_list_sum, map_map]
  simp only [Function.comp_def, hterm, sum_map_ite]
  simp [countP_eq_length_filter]
  ring

/-- The equation of a tuple says that the weights take its product to the derivative. -/
theorem moment_iff (v : String → ℚ) (o : List (Fin n)) :
    value v (momentForm dx S α o.length (key o)) = 0 ↔
    difference (S.map (place dx)) (weightsAt S v) (power o) = derivativeAt α (power o) := by
  have hcount := count_mul_derivativeAt o
  have hfact : (o.length.factorial : ℚ) ≠ 0 := by positivity
  have hN : (((Taylor.tuples n o.length).countP fun o' => o'.isPerm o : Nat) : ℚ) ≠ 0 :=
    fun h => hfact (by rw [← hcount, h, zero_mul])
  rw [momentForm, map_sub, value_sumForm, sub_eq_zero, mul_assoc, inv_mul_eq_iff_eq_mul₀ hfact]
  by_cases hperm : o.Perm α
  · rw [if_pos (key_eq_iff.2 hperm), value_const, ← derivativeAt_perm hperm, mul_one, ← hcount,
      mul_right_inj' hN]
  · rw [if_neg fun h => hperm (key_eq_iff.1 h), map_zero, mul_zero,
      derivativeAt_power_of_not_perm fun h => hperm h.symm,
      mul_eq_zero, or_iff_right hN]

/-! ### Orders that can be fulfilled -/

/-- The linear forms in given symbols. -/
def within (us : List String) : Submodule ℚ Form where
  carrier := {f | ∀ t ∉ us, f (some t) = 0}
  add_mem' hf hg t ht := by simp [hf t ht, hg t ht]
  zero_mem' _ _ := rfl
  smul_mem' q f hf t ht := by simp [hf t ht]

theorem momentForm_mem (m : Nat) (k : List Int) :
    momentForm dx S α m k ∈ within (S.map weightName) := by
  refine sub_mem (list_sum_mem fun f hf => ?_) ?_
  · obtain ⟨d, hd, rfl⟩ := mem_map.1 hf
    refine list_sum_mem fun f hf => ?_
    obtain ⟨o, -, rfl⟩ := mem_map.1 hf
    split
    · refine Submodule.smul_mem _ _ fun t ht => ?_
      have hne : weightName d ≠ t := fun h => ht (h ▸ mem_map_of_mem hd)
      simp [symbol, hne]
    · exact zero_mem _
  · split
    · exact fun t _ => by simp [const]
    · exact zero_mem _

def ExactBelow (dx : ℚ) (S : Stencil) (α : List (Fin n)) (m : Nat) (v : String → ℚ) : Prop :=
  ∀ k < m, ExactAt dx S α (weightsAt S v) k

theorem errorTerms_poses (hA : A.Linear) (hp : Plain p α S dx) (hS : S ≠ [])
    (hnd : (S.map weightName).Nodup) {s : LinearSystem}
    (h : s.Poses (S.map weightName) (ExactBelow dx S α m)) :
    ∃ t, s.addAll A ((errorTerms A p m).map (·.2)) = (t, .ok ()) ∧
      t.Poses (S.map weightName) (ExactBelow dx S α (m + 1)) := by
  obtain ⟨hkeys, hforms⟩ := errorTerms_forms hA hp hS m
  have hes : Forall₂ Stands ((errorTerms A p m).map (·.2))
    ((errorTerms A p m).map fun x => momentForm dx S α m x.1) := by
    rw [forall₂_map_left_iff, forall₂_map_right_iff]
    exact forall₂_same.2 hforms
  obtain ⟨t, ht, hposes⟩ := h.addAll hA hnd hes fun f hf t ht => by
    obtain ⟨x, -, rfl⟩ := mem_map.1 hf
    exact by_contra fun hne => ht (momentForm_mem m x.1 t hne)
  refine ⟨t, ht, ?_⟩
  convert hposes using 2 with v
  refine ⟨fun h => ⟨fun k hk => h k (by omega), fun f hf => ?_⟩, fun h k hk => ?_⟩
  · obtain ⟨x, hx, rfl⟩ := mem_map.1 hf
    obtain ⟨o, rfl, hk⟩ := (hkeys x.1).1 (mem_map_of_mem hx)
    rw [hk, moment_iff]
    exact h _ (Nat.lt_succ_self _) o rfl
  · rcases Nat.lt_succ_iff_lt_or_eq.1 hk with hk | rfl
    · exact h.1 k hk
    · intro o ho
      obtain ⟨x, hx, hkey⟩ := mem_map.1 ((hkeys (key o)).2 ⟨o, ho, rfl⟩)
      subst ho
      rw [← moment_iff, ← hkey]
      exact h.2 _ (mem_map_of_mem hx)

theorem exists_not_exact (dx : ℚ) (hα : α ≠ []) (hS : S ≠ []) (m : Nat) :
    ∃ v, ¬ExactBelow dx S α (m + 1) v := by
  refine ⟨fun _ => 1, fun h => ?_⟩
  have h0 := h 0 (Nat.succ_pos m) [] rfl
  rw [difference_power, derivativeAt_power_of_not_perm fun h => hα h.eq_nil] at h0
  exact hS (by simpa using h0)

/-- The loop ends, at the first order that cannot be fulfilled. -/
theorem fulfil_ok (hA : A.Linear) (hp : Plain p α S dx) (hα : α ≠ []) (hS : S ≠ [])
    (hnd : (S.map weightName).Nodup) :
    ∀ (fuel : Nat) {m : Nat} {s : LinearSystem}, s.Poses (S.map weightName) (ExactBelow dx S α m) →
      s.isReduced = true →
      (∃ v, ExactBelow dx S α m v) → α.length + S.length < m + fuel → ∃ t k,
        fulfil A p fuel m s = .ok (t, k) ∧
        t.Poses (S.map weightName) (ExactBelow dx S α k) ∧ t.isReduced = true ∧
          (∃ v, ExactBelow dx S α k v) ∧
        ¬∃ v, ExactBelow dx S α (k + 1) v := by
  intro fuel
  induction fuel with
  | zero =>
    intro m s _ _ hv hm
    obtain ⟨v, hv⟩ := hv
    obtain ⟨q, hdeg, hne⟩ := exists_difference_ne hα (S.map (place dx)) (weightsAt S v)
    rw [length_map] at hdeg
    exact absurd (difference_eq_of_power (fun o ho => hv o.length ho o rfl) q (by omega)) hne
  | succ fuel ih =>
    intro m s hs hred hv hm
    have hcopy : s.copy = s := by cases s; simp_all [LinearSystem.copy]
    obtain ⟨t, ht, hposes⟩ := errorTerms_poses hA hp hS hnd hs
    have hneg := exists_not_exact dx hα hS m
    obtain ⟨k, hk, hnone⟩ := hposes.solutionStructure hA hnd (by simpa using hS) hneg
    obtain ⟨hreduce, hisred⟩ := hposes.reduce hA hneg
    rw [fulfil, hcopy, ht]
    simp only [bind, Except.bind, hk]
    cases k with
    | none => exact ⟨s, m, rfl, hs, hred, hv, hnone.1 rfl⟩
    | single => exact ih hreduce hisred (not_not.1 (hnone.not.1 (by simp))) (by omega)
    | multiple => exact ih hreduce hisred (not_not.1 (hnone.not.1 (by simp))) (by omega)

theorem isotropy_forms (hA : A.Linear) (hp : Plain p α S dx) (hS : S ≠ []) :
    ∀ e ∈ isotropy A p m, ∃ f ∈ within (S.map weightName), Stands e f := by
  obtain ⟨-, hforms⟩ := errorTerms_forms hA hp hS m
  have hmem : ∀ x ∈ errorTerms A p m, ∃ f ∈ within (S.map weightName), Stands x.2 f :=
    fun x hx => ⟨_, momentForm_mem m x.1, hforms x hx⟩
  have herror : ∀ k, ∃ f ∈ within (S.map weightName),
    Stands ((Table.get? (errorTerms A p m) k).getD .zero) f := by
    intro k
    cases hget : Table.get? (errorTerms A p m) k with
    | none => exact ⟨0, zero_mem _, stands_zero⟩
    | some e => exact hmem _ (mem_of_get?_eq_some hget)
  intro e he
  obtain ⟨x, hx, he⟩ := mem_flatMap.1 he
  dsimp only at he
  split at he
  · exact mem_singleton.1 he ▸ hmem x hx
  · split at he
    · exact mem_singleton.1 he ▸ hmem x hx
    · obtain ⟨y, -, hy⟩ := mem_filterMap.1 he
      split at hy
      · cases hy
      · cases hy
        obtain ⟨f, hf, hfs⟩ := herror ((y.2 ++ p.derivative).mergeSort (· ≤ ·))
        obtain ⟨g, hg, hgs⟩ := herror ((y.1 ++ p.derivative).mergeSort (· ≤ ·))
        exact ⟨f - g, sub_mem hf hg, hA.sub hfs hgs⟩

theorem exists_forms {es : List Expr} {W : Submodule ℚ Form} (h : ∀ e ∈ es, ∃ f ∈ W, Stands e f) :
    ∃ fs, Forall₂ Stands es fs ∧ ∀ f ∈ fs, f ∈ W := by
  induction es with
  | nil => exact ⟨[], .nil, by simp⟩
  | cons e es ih =>
    obtain ⟨f, hf, he⟩ := h e mem_cons_self
    obtain ⟨fs, hfs, hW⟩ := ih fun e he => h e (mem_cons_of_mem _ he)
    exact ⟨f :: fs, .cons he hfs, forall_mem_cons.2 ⟨hf, hW⟩⟩

theorem unionNew_syms : ∀ {ys : List String} (xs : List String), (xs ++ ys).Nodup → unionNew (xs.map Expr.symbol)
    (ys.map .symbol) = (xs ++ ys).map .symbol := by
  intro ys
  induction ys with
  | nil => intro xs _; simp [unionNew]
  | cons y ys ih =>
    intro xs h
    have hy : ((xs.map Expr.symbol).contains (.symbol y)) = false := by
      have hne : ∀ x ∈ xs, y ≠ x := by
        rintro x hx rfl
        exact (nodup_append.1 h).2.2 y hx y mem_cons_self rfl
      simpa [beq_sym] using hne
    have hstep : insertNew (xs.map Expr.symbol) (.symbol y) = (xs ++ [y]).map .symbol :=
      by simp [insertNew, hy]
    rw [unionNew, map_cons, foldl_cons, hstep, ← unionNew, ih _ (by simpa using h)]
    simp

theorem symbolsList_syms {ss : List String} (hnd : ss.Nodup) :
    Expr.symbolsList (ss.map .symbol) = ss.map .symbol := by
  induction ss with
  | nil => rfl
  | cons s ss ih =>
    rw [map_cons, Expr.symbolsList, ih hnd.of_cons]
    exact unionNew_syms [s] hnd

/-- The equations that ask for the same error in all directions keep the accuracy. -/
theorem isotropic_ok (hA : A.Linear) (hp : Plain p α S dx) (hα : α ≠ []) (hS : S ≠ [])
    (hnd : (S.map weightName).Nodup) {s : LinearSystem}
    (hs : s.Poses (S.map weightName) (ExactBelow dx S α m)) (hv : ∃ v, ExactBelow dx S α m v)
    (hm : m ≠ 0) (hred : s.isReduced = true) :
    ∃ t k, s.copy.addAll A (isotropy A p m) = (t, .ok ()) ∧ t.solutionStructure A = .ok k ∧
      (k ≠ .none → ∃ T, (t.reduce A).Poses (S.map weightName) T ∧ (∃ v, T v) ∧ ∀ v, T v →
        ExactBelow dx S α m v) := by
  have hcopy : s.copy = s := by cases s; simp_all [LinearSystem.copy]
  obtain ⟨fs, hfs, hW⟩ := exists_forms (isotropy_forms (m := m) hA hp hS)
  obtain ⟨t, ht, hposes⟩ := hs.addAll hA hnd hfs fun f hf t ht => by_contra fun hne => ht
    (hW f hf t hne)
  obtain ⟨j, rfl⟩ := Nat.exists_eq_succ_of_ne_zero hm
  obtain ⟨w, hw⟩ := exists_not_exact dx hα hS j
  obtain ⟨k, hk, hnone⟩ := hposes.solutionStructure hA hnd (by simpa using hS) ⟨w, fun h => hw h.1⟩
  refine ⟨t, k, hcopy ▸ ht, hk, fun hne => ⟨_, (hposes.reduce hA ⟨w, fun h => hw h.1⟩).1,
    not_not.1 (hnone.not.1 hne), fun v hv => hv.1⟩⟩

/-- The difference that the solved problem gives. -/
theorem solve_ok (hA : A.Linear) (hp : Plain p α S dx) (hα : α ≠ []) (hS : S ≠ [])
    (hnd : (S.map weightName).Nodup) (isotropic : Bool) :
    ∃ r, ∃ k : Nat, ∃ Φ : String → Form, p.solve A isotropic = .ok r ∧ r.stencil = S ∧
      r.accuracy = (k : Int) - α.length ∧
      Forall₂ Stands r.weights (S.map fun d => Φ (weightName d)) ∧
      (∀ v, ExactBelow dx S α k fun t => value v (Φ t)) ∧ ¬∃ v, ExactBelow dx S α (k + 1) v := by
  have hws : S.map (fun d => (Table.get? p.weights d).getD .zero) =
    (S.map weightName).map .symbol := by
    rw [map_map]
    exact map_congr_left fun d hd => by rw [hp.weights d hd]; rfl
  have hlen : p.derivative.length = α.length :=
    by rw [hp.derivative, key, length_mergeSort, length_map]
  have hstart : (LinearSystem.empty ((S.map weightName).map .symbol)).Poses (S.map weightName)
    (ExactBelow dx S α 0) := by
    convert LinearSystem.poses_empty (S.map weightName) with v
    simp [ExactBelow]
  obtain ⟨s, k, hrun, hs, hred, hv, hnone⟩ :=
    fulfil_ok hA hp hα hS hnd (α.length + S.length + 1) hstart rfl
    ⟨fun _ => 0, fun m hm => absurd hm (Nat.not_lt_zero m)⟩ (by omega)
  have hk : k ≠ 0 := by
    rintro rfl
    refine hnone ⟨fun _ => 0, fun m hm o ho => ?_⟩
    obtain rfl : o = [] := length_eq_zero_iff.1 (by omega)
    rw [difference_power, derivativeAt_power_of_not_perm fun h => hα h.eq_nil]
    simp
  have hend : ∀ {t : LinearSystem} {T}, t.Poses (S.map weightName) T → (∃ v, T v) →
    (∀ v, T v → ExactBelow dx S α k v) →
      ∃ found es, ∃ Φ : String → Form, t.solution A = some found ∧
        ((S.map weightName).map Expr.symbol).mapM (Substitute.algebraicTable A found) = .ok es ∧
        Forall₂ Stands es (S.map fun d => Φ (weightName d)) ∧ ∀ v,
          ExactBelow dx S α k fun t => value v (Φ t) := by
    intro t T ht hT hexact
    obtain ⟨found, Φ, hfound, hsub, hsol⟩ := ht.solution hA hnd hT
    choose e he hstands using hsub
    refine ⟨found, S.map fun d => e (weightName d), Φ, hfound, ?_, ?_, fun v => hexact _ (hsol v)⟩
    · rw [Outcome.mapM_eq_ok, map_map, forall₂_map_left_iff, forall₂_map_right_iff]
      exact forall₂_same.2 fun d _ => he _
    · rw [forall₂_map_left_iff, forall₂_map_right_iff]
      exact forall₂_same.2 fun d _ => hstands _
  rw [solve]
  simp only [hp.stencil, hws, hlen, symbolsList_syms hnd, hrun, bind, Except.bind]
  cases isotropic with
  | false =>
    obtain ⟨found, es, Φ, hfound, hes, hstands, hexact⟩ := hend hs hv fun _ h => h
    simp only [Bool.false_eq_true, if_false, pure, Except.pure, hfound, hes]
    exact ⟨_, k, Φ, rfl, rfl, rfl, hstands, hexact, hnone⟩
  | true =>
    obtain ⟨t, j, ht, hj, hT⟩ := isotropic_ok hA hp hα hS hnd hs hv hk hred
    simp only [if_true, ht, hj]
    by_cases hnonej : j = .none
    · obtain ⟨found, es, Φ, hfound, hes, hstands, hexact⟩ := hend hs hv fun _ h => h
      simp only [hnonej, pure, Except.pure, hfound, hes]
      exact ⟨_, k, Φ, rfl, rfl, rfl, hstands, hexact, hnone⟩
    · obtain ⟨T, hposes, hsol, hT⟩ := hT hnonej
      obtain ⟨found, es, Φ, hfound, hes, hstands, hexact⟩ := hend hposes hsol hT
      cases j with
      | none => exact absurd rfl hnonej
      | single | multiple =>
        simp only [pure, Except.pure, hfound, hes]
        exact ⟨_, k, Φ, rfl, rfl, rfl, hstands, hexact, hnone⟩

theorem create_plain (dx : ℚ) (hS : S ≠ []) (hlen : ∀ d ∈ S, d.length = n) :
    ∃ p, create (α.map fun i => (i.val : Int)) S (.rat dx) = .ok p ∧ Plain p α S dx := by
  have hdim : S.dimension = .ok n := by
    obtain ⟨d, T, rfl⟩ := exists_cons_of_ne_nil hS
    simp [Stencil.dimension, hlen d mem_cons_self]
  refine ⟨_, by rw [create, hdim]; rfl, rfl, rfl, rfl, rfl, ?_, hlen⟩
  suffices h : ∀ (T : Stencil) t d, d ∈ T ∨ Table.get? t d = some (symbolFor d) →
      Table.get? (T.foldl (fun t d => Table.insert t d (symbolFor d)) t) d =
        some (symbolFor d) from fun d hd => h S [] d (.inl hd)
  intro T
  induction T with
  | nil => exact fun t d h => h.resolve_left (by simp)
  | cons c T ih =>
    intro t d h
    rw [foldl_cons]
    refine ih _ d ?_
    by_cases hcd : c = d
    · exact .inr (hcd ▸ Table.get?_insert_self t c _)
    · rw [Table.get?_insert_of_ne hcd]
      exact h.imp_left fun hd => (mem_cons.1 hd).resolve_left (Ne.symm hcd)

/-- A derivative that is asked for on a stencil is approximated with the stated accuracy: the
weights found, whatever the values of the symbols left in them, give it for all polynomials of
smaller degree, and no weights give it for all of the next degree.  So orders are added until one
cannot be fulfilled, and there is such an order. -/
theorem solve_accuracy (hS : S ≠ []) (hnd : S.Nodup) (hlen : ∀ d ∈ S, d.length = n) (hα : α ≠ [])
    (dx : ℚ) (isotropic : Bool) :
    ∃ p r fs, create (α.map fun i => (i.val : Int)) S (.rat dx) = .ok p ∧
      p.solve .standard isotropic = .ok r ∧ r.stencil = S ∧ Forall₂ Stands r.weights fs ∧
      (∀ v (q : Poly n), q.totalDegree < α.length + r.accuracy →
        difference (S.map (place dx)) (fs.map (value v)) q = derivativeAt α q) ∧
      ∀ ws : List ℚ, ws.length = S.length → ∃ q : Poly n, q.totalDegree ≤ α.length + r.accuracy ∧
        difference (S.map (place dx)) ws q ≠ derivativeAt α q := by
  obtain ⟨p, hcreate, hp⟩ := create_plain (α := α) dx hS hlen
  have hsyms : (S.map weightName).Nodup := by
    have hd : ∀ d ∈ S, d ≠ [] := by
      rintro d hd rfl
      obtain ⟨i, hi⟩ := exists_mem_of_ne_nil α hα
      obtain rfl : 0 = n := hlen _ hd
      exact i.elim0
    exact hnd.map_on fun d hdS d' hd'S h => weightName_injective (hd d hdS) (hd d' hd'S) h
  obtain ⟨r, k, Φ, hsolve, hstencil, hacc, hstands, hexact, hmax⟩ :=
    solve_ok Algebra.standard_linear hp hα hS hsyms isotropic
  refine ⟨p, r, _, hcreate, hsolve, hstencil, hstands, fun v q hq => ?_, fun ws hws => ?_⟩
  · rw [map_map]
    refine difference_eq_of_power (fun o ho => hexact v o.length ho o rfl) q (by omega)
  · by_contra hnone
    simp only [not_exists, not_and, not_not] at hnone
    refine hmax ⟨fun t => ws.getD ((S.map weightName).idxOf t) 0, fun m hm o ho => ?_⟩
    have hweights : weightsAt S (fun t => ws.getD ((S.map weightName).idxOf t) 0) = ws := by
      refine ext_getElem (by simp [weightsAt, hws]) fun j h₁ h₂ => ?_
      have hidx := hsyms.idxOf_getElem j (by simpa [← hws] using h₂)
      rw [getElem_map] at hidx
      simp [weightsAt, hidx, h₂]
    rw [hweights]
    refine hnone (power o) ?_
    have := (totalDegree_power_le o)
    omega

/-- Central differences for a first derivative, at a distance of one half. -/
theorem solve_accuracy_central : ∃ p r fs, create [0] [[-1], [0], [1]] (.rat (1 / 2)) = .ok p ∧
    p.solve .standard false = .ok r ∧ Forall₂ Stands r.weights fs ∧
    ∀ v (q : Poly 1), q.totalDegree < 1 + r.accuracy →
      difference ([[-1], [0], [1]].map (place (1 / 2))) (fs.map (value v)) q = derivativeAt
        [0] q := by
  obtain ⟨p, r, fs, hcreate, hsolve, -, hstands, hexact, -⟩ := solve_accuracy (n := 1)
    (S := [[-1], [0], [1]]) (α := [0]) (by decide) (by decide) (by decide) (by decide) (1 / 2) false
  exact ⟨p, r, fs, hcreate, hsolve, hstands, hexact⟩

end WeightProblem

end StencilForge
