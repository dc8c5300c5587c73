import StencilForge.Difference.Weights
import StencilForge.Proofs.Variables

/-!
# Proofs — linear forms

A `Form` is a linear form in plain symbols with a constant part, and `Form.Stands` says that an
expression is written as its terms.  `Algebra.Linear` is what is relied on of the algebra here: sums
and multiples of linear forms are collected.
-/

open List

namespace StencilForge

/-- Coefficients of symbols; that of no symbol is the constant part. -/
abbrev Form := Option String →₀ ℚ

namespace Form

def term (c : ℚ) : Option String → Expr
  | none => .rat c
  | some s => if c = 1 then .symbol s else .mul [.rat c, .symbol s]

/-- The expression is the sum of the terms of the form, in some order. -/
def Stands (e : Expr) (f : Form) : Prop :=
  ∃ xs : List (Option String), xs.Nodup ∧ (∀ x, x ∈ xs ↔ f x ≠ 0) ∧
    e = .addOf (xs.map fun x => term (f x) x)

noncomputable def const (q : ℚ) : Form := .single none q

noncomputable def symbol (s : String) : Form := .single (some s) 1

variable {e : Expr} {f : Form} {q c : ℚ} {s : String} {x : Option String}

theorem stands_single (h : c ≠ 0) : Stands (term c x) (.single x c) := by
  classical
  refine ⟨[x], nodup_singleton x, fun y => ?_, by simp [Expr.addOf]⟩
  rw [mem_singleton, Finsupp.single_apply]
  by_cases hy : y = x
  · simp [hy, h]
  · simp [hy, Ne.symm hy]

theorem Stands.eq_term (h : Stands e (.single x c)) (hc : c ≠ 0) : e = term c x := by
  classical
  obtain ⟨xs, hnd, hmem, rfl⟩ := h
  have hxs : xs = [x] := perm_singleton.1 <| (perm_ext_iff_of_nodup hnd (nodup_singleton x)).2
    fun y => by
    rw [hmem, mem_singleton, Finsupp.single_apply]
    by_cases hy : y = x
    · simp [hy, hc]
    · simp [hy, Ne.symm hy]
  simp [hxs, Expr.addOf]

theorem stands_rat (q : ℚ) : Stands (.rat q) (const q) := by
  by_cases h : q = 0
  · exact ⟨[], nodup_nil, by simp [const, h],
      by simp [Expr.addOf, Expr.zero, Expr.int, Expr.rat, h]⟩
  · exact stands_single h

theorem stands_zero : Stands .zero 0 := ⟨[], nodup_nil, by simp, rfl⟩

theorem stands_sym (s : String) : Stands (.symbol s) (symbol s) := by
  simpa [term, symbol] using stands_single (x := some s) one_ne_zero

theorem Stands.eq_rat (h : Stands e (const q)) : e = .rat q := by
  by_cases hq : q = 0
  · obtain ⟨xs, -, hmem, rfl⟩ := h
    obtain rfl : xs = [] := eq_nil_iff_forall_not_mem.2 fun x hx => (hmem x).1 hx
      (by simp [const, hq])
    simp [Expr.addOf, Expr.zero, Expr.int, Expr.rat, hq]
  · exact h.eq_term hq

/-- The value of a form, symbols given. -/
noncomputable def value (v : String → ℚ) : Form →ₗ[ℚ] ℚ :=
  Finsupp.linearCombination ℚ fun x => x.elim 1 v

@[simp] theorem value_const (v : String → ℚ) : value v (const q) = q := by simp [value, const]

@[simp] theorem value_symbol (v : String → ℚ) : value v (symbol s) = v s := by simp [value, symbol]

theorem const_smul (q c : ℚ) : q • const c = const (q * c) := by simp [const]

end Form

open Form

/-- The algebra collects the terms of linear forms. -/
structure Algebra.Linear (A : Algebra) : Prop where
  add : ∀ {es : List Expr} {fs : List Form}, Forall₂ Stands es fs → Stands (A.add es) fs.sum
  mul : ∀ {e : Expr} {f : Form} {r : List ℚ} {es : List Expr}, Stands e f →
    es.Perm (e :: r.map .rat) →
    Stands (A.mul es) (r.prod • f)
  one : A.mul [] = .one
  inv : ∀ {q : ℚ}, q ≠ 0 → A.pow (.rat q) .negOne = .rat q⁻¹

namespace Algebra.Linear

variable {A : Algebra} (hA : A.Linear) {e e' : Expr} {f f' : Form} {q : ℚ}

include hA

theorem add2 (h : Stands e f) (h' : Stands e' f') : Stands (A.add [e, e']) (f + f') := by
  simpa using hA.add (.cons h (.cons h' .nil))

theorem mul2 (q : ℚ) (h : Stands e f) : Stands (A.mul [e, .rat q]) (q • f) := by
  simpa using hA.mul (r := [q]) h (.refl _)

theorem mul2' (q : ℚ) (h : Stands e f) : Stands (A.mul [.rat q, e]) (q • f) := by
  simpa using hA.mul (r := [q]) h (.swap _ _ _)

theorem neg (h : Stands e f) : Stands (A.neg e) (-f) := by
  have hneg : Expr.negOne = .rat (-1) := by simp [Expr.negOne, Expr.int, Expr.rat]
  simpa [Algebra.neg, hneg] using hA.mul2' (-1) h

theorem sub (h : Stands e f) (h' : Stands e' f') : Stands (A.sub e e') (f - f') := by
  simpa [Algebra.sub, sub_eq_add_neg] using hA.add2 h (hA.neg h')

theorem rat_mul (a b : ℚ) : A.mul [.rat a, .rat b] = .rat (a * b) := by
  have h := hA.mul2' a (stands_rat b)
  rw [const_smul] at h
  exact h.eq_rat

theorem rat_sub (a b : ℚ) : A.sub (.rat a) (.rat b) = .rat (a - b) := by
  have h := hA.sub (stands_rat a) (stands_rat b)
  rw [show const a - const b = const (a - b) by simp [const]] at h
  exact h.eq_rat

theorem div (hq : q ≠ 0) (h : Stands e f) : Stands (A.div e (.rat q)) (q⁻¹ • f) := by
  rw [Algebra.div, Algebra.inv, hA.inv hq]
  exact hA.mul2 q⁻¹ h

theorem rat_div (a : ℚ) {b : ℚ} (h : b ≠ 0) : A.div (.rat a) (.rat b) = .rat (a / b) := by
  rw [Algebra.div, Algebra.inv, hA.inv h, hA.rat_mul, div_eq_mul_inv]

theorem mul_rats (qs : List ℚ) : A.mul (qs.map .rat) = .rat qs.prod := by
  cases qs with
  | nil => simp [hA.one, Expr.one, Expr.int, Expr.rat]
  | cons q qs =>
    have h := hA.mul (r := qs) (stands_rat q) (.refl _)
    rw [const_smul, mul_comm, ← prod_cons] at h
    exact h.eq_rat

end Algebra.Linear

/-! ### Expansion and coefficients -/

namespace Build

variable {build : Head → List Expr → Outcome Expr} {step : Expr → Expr}

theorem stepAt_fixed {e : Expr} {b : Bool} (h : step e = e) : stepAt step e b = (e, b) := by
  simp only [stepAt, h]
  exact if_pos (Expr.same_refl e)

theorem everywhere_atom {a : Atom} (h : step (.atom a) = .atom a) :
    everywhere build step (.atom a) = .ok (.atom a, false) := by
  rw [everywhere, stepAt_fixed h]

theorem everywhereList_fixed {es : List Expr}
    (h : ∀ e ∈ es, everywhere build step e = .ok (e, false)) :
    everywhereList build step es = .ok (es, false) := by
  induction es with
  | nil => rfl
  | cons e es ih =>
    rw [everywhereList, h e mem_cons_self, ih fun e he => h e (mem_cons_of_mem _ he)]
    rfl

theorem everywhere_node {k : Head} {es : List Expr} (hk : k = .add ∨ k = .mul)
    (h : step (.node k es) = .node k es)
    (hes : ∀ e ∈ es, everywhere build step e = .ok (e, false)) :
    everywhere build step (.node k es) = .ok (.node k es, false) := by
  have hlist := everywhereList_fixed hes
  rcases hk with rfl | rfl
  all_goals simp [everywhere, hlist, bind, Except.bind, pure, Except.pure, stepAt_fixed h]

end Build

namespace Form

variable {A : Algebra} {e : Expr} {f : Form} {c : ℚ} {x : Option String}

/-- A step that leaves terms and sums alone leaves linear forms alone. -/
theorem Stands.everywhere {build : Head → List Expr → Outcome Expr} {step : Expr → Expr}
    (h : Stands e f)
    (hatom : ∀ a, step (.atom a) = .atom a) (hadd : ∀ ts, step (.add ts) = .add ts)
    (hmul : ∀ c s, c ≠ 1 → c ≠ 0 → step (.mul [.rat c, .symbol s]) = .mul [.rat c, .symbol s]) :
    Build.everywhere build step e = .ok (e, false) := by
  obtain ⟨xs, -, hmem, rfl⟩ := h
  have hterm : ∀ x ∈ xs, Build.everywhere build step (term (f x) x) =
    .ok (term (f x) x, false) := by
    rintro (_ | s) hx
    · exact Build.everywhere_atom (hatom _)
    · rw [term]
      split
      · exact Build.everywhere_atom (hatom _)
      · refine Build.everywhere_node (.inr rfl) (hmul _ _ ‹_› ((hmem _).1 hx)) fun e he => ?_
        simp only [mem_cons, not_mem_nil, or_false] at he
        rcases he with rfl | rfl <;> exact Build.everywhere_atom (hatom _)
  rcases xs with _ | ⟨x, _ | ⟨y, xs⟩⟩
  · exact Build.everywhere_atom (hatom _)
  · exact hterm x mem_cons_self
  · refine Build.everywhere_node (.inl rfl) (hadd _) fun e he => ?_
    obtain ⟨z, hz, rfl⟩ : ∃ z ∈ x :: y :: xs, term (f z) z = e := mem_map.1 he
    exact hterm z hz

theorem split_term (hA : A.Linear) (c : ℚ) (s : String) : ∃ (e : Expr) (d : ℚ), d ≠ 0 ∧
    Fraction.split A (.mul [.rat c, .symbol s]) = (e, .rat d) ∧ Stands e ((d * c) • symbol s) := by
  have hden : (c.den : ℚ) ≠ 0 := by exact_mod_cast c.den_nz
  have hmul : ∀ q : ℚ, Stands (A.mul [.rat q, .symbol s]) (q • symbol s) :=
    fun q => hA.mul2' q (stands_sym s)
  have hnum : A.mul [.int c.den] = .rat c.den := by
    have h := hA.mul (r := []) (stands_rat c.den) (.refl _)
    rw [prod_nil, one_smul] at h
    exact h.eq_rat
  by_cases h1 : c.den = 1
  · refine ⟨A.mul [.rat c, .symbol s], 1, one_ne_zero, ?_, by simpa using hmul c⟩
    simp [Fraction.split, Fraction.parts, Fraction.partsBy, Expr.symbol, Expr.factors, Expr.rat, h1,
      hA.one, Expr.one, Expr.int]
  · by_cases h2 : c.num = 1
    · refine ⟨A.mul [.symbol s], c.den, hden, ?_, ?_⟩
      · simp [Fraction.split, Fraction.parts, Fraction.partsBy, Expr.symbol, Expr.factors, Expr.rat,
          h1, h2]
        exact hnum
      · rw [mul_comm, Rat.mul_den_eq_num, h2, Int.cast_one]
        exact hA.mul (r := []) (stands_sym s) (.refl _)
    · refine ⟨A.mul [.rat c.num, .symbol s], c.den, hden, ?_, ?_⟩
      · simp [Fraction.split, Fraction.parts, Fraction.partsBy, Expr.symbol, Expr.factors, Expr.rat,
          h1, h2]
        exact ⟨rfl, hnum⟩
      · rw [mul_comm, Rat.mul_den_eq_num]
        exact hmul c.num

theorem product_term (hA : A.Linear) {s : String} {n : Nat} (hc : c ≠ 1) (hc0 : c ≠ 0) :
    Expand.product A n (.mul [.rat c, .symbol s]) = .mul [.rat c, .symbol s] := by
  cases n with
  | zero => rfl
  | succ n =>
    obtain ⟨e, d, hd, hsplit, he⟩ := split_term hA c s
    have hdiv : A.div e (.rat d) = .mul [.rat c, .symbol s] := by
      have h := hA.div hd he
      rw [smul_smul, ← mul_assoc, inv_mul_cancel₀ hd, one_mul,
        show c • symbol s = .single (some s) c by simp [symbol]] at h
      rw [h.eq_term hc0, term, if_neg hc]
    have hmul : (Expr.rat d).isMul = false := rfl
    simp only [Expand.product, hsplit, hmul, Bool.false_eq_true, if_false, hdiv]
    rfl

/-- Linear forms are expanded. -/
theorem Stands.expand (hA : A.Linear) (h : Stands e f) : Build.expand A e = .ok e := by
  have hstep : ∀ {build : Head → List Expr → Outcome Expr} {step : Expr → Expr},
    step ∈ [Expand.logarithm A 20,
      Expand.power A, Expand.product A 40, Expand.powerBase A, Expand.powerExp A] →
      Build.everywhere build step e = .ok (e, false) := by
    intro build step hs
    simp only [mem_cons, not_mem_nil, or_false] at hs
    rcases hs with rfl | rfl | rfl | rfl | rfl
    · exact h.everywhere (fun _ => rfl) (fun _ => rfl) fun _ _ _ _ => rfl
    · exact h.everywhere (fun _ => rfl) (fun _ => rfl) fun _ _ _ _ => rfl
    · exact h.everywhere (fun _ => rfl) (fun _ => rfl) fun _ _ hc hc0 => product_term hA hc hc0
    · exact h.everywhere (fun _ => rfl) (fun _ => rfl) fun _ _ _ _ => rfl
    · exact h.everywhere (fun _ => rfl) (fun _ => rfl) fun _ _ _ _ => rfl
  have hself : (e == e) = true := Expr.same_refl e
  simp [Build.expand, Build.expandDeep, Build.steps, Build.settle, hstep, bind, Except.bind, pure,
    Except.pure, hself]

@[simp] theorem symbol_inj {s t : String} : Expr.symbol s = .symbol t ↔ s = t := by
  simp [Expr.symbol]

theorem beq_sym (s t : String) : (Expr.symbol s == Expr.symbol t) = decide (s = t) := by
  rw [Bool.eq_iff_iff, decide_eq_true_iff]
  exact ⟨fun h => symbol_inj.1 (Expr.eq_sym_of_same h), fun h => h ▸ Expr.same_refl _⟩

theorem signedFactors_term (c : ℚ) (x : Option String) : ∃ cs : List ℚ, cs.prod = c ∧
    Coefficient.signedFactors (term c x) = cs.map .rat ++ x.toList.map .symbol := by
  have hsigned : ∀ r : List Expr, ∃ cs : List ℚ, cs.prod = c ∧
      Coefficient.signedFactors (.mul (.rat c :: r)) = cs.map .rat ++ r := by
    intro r
    by_cases hneg : (Number.rat c).isNeg && !(Number.rat c).isNegOne
    · refine ⟨[-1, -c], by simp, ?_⟩
      simp [Coefficient.signedFactors, Expr.factors, Expr.rat, hneg, Expr.negOne, Expr.int,
        Number.neg]
    · exact ⟨[c], by simp, by simp [Coefficient.signedFactors, Expr.factors, Expr.rat, hneg]⟩
  cases x with
  | none => exact hsigned []
  | some s =>
    rw [term]
    split
    · exact ⟨[], by simp [*], rfl⟩
    · exact hsigned [.symbol s]

theorem Stands.terms (h : Stands e f) : ∃ xs :
    List (Option String), xs.Nodup ∧ (∀ s, some s ∈ xs ↔ f (some s) ≠ 0) ∧
    e.terms = xs.map fun x => term (f x) x := by
  obtain ⟨xs, hnd, hmem, rfl⟩ := h
  rcases xs with _ | ⟨_ | s, _ | ⟨y, xs⟩⟩
  · refine ⟨[none], nodup_singleton _, fun s => by simpa using hmem (some s), ?_⟩
    have hnone : f none = 0 := by simpa using hmem none
    simp [Expr.addOf, Expr.terms, Expr.zero, term, hnone, Expr.int, Expr.rat]
  · exact ⟨_, hnd, fun s => hmem s, rfl⟩
  · exact ⟨_, hnd, fun s => hmem s, rfl⟩
  · refine ⟨_, hnd, fun s => hmem s, ?_⟩
    simp only [map_cons, map_nil, Expr.addOf, term]
    split <;> rfl
  · exact ⟨_, hnd, fun s => hmem s, rfl⟩

theorem Stands.apply_sym {s : String} (h : Stands (.symbol s) f) : f (some s) = 1 := by
  obtain ⟨xs, -, -, he⟩ := h.terms
  rcases xs with _ | ⟨_ | t, _ | ⟨y, xs⟩⟩
  all_goals simp only [Expr.terms, Expr.symbol, map_nil, map_cons, cons.injEq, reduceCtorEq,
    and_false, term, Expr.rat, and_true] at he
  · simp at he
  · split at he
    · simp_all
    · simp at he

theorem filterMap_ite_eq {α β : Type} [DecidableEq α] {a : α} {b : β} : ∀ {xs : List α}, xs.Nodup →
    xs.filterMap (fun x => if x = a then some b else none) = if a ∈ xs then [b] else [] := by
  intro xs
  induction xs with
  | nil => simp
  | cons x xs ih =>
    intro h
    have ih := ih h.of_cons
    by_cases hx : x = a
    · have ha : a ∉ xs := hx ▸ (nodup_cons.1 h).1
      simp_all
    · simp_all [Ne.symm hx]

/-- What stands before a symbol in a linear form is its coefficient. -/
theorem Stands.coefficient (hA : A.Linear) (h : Stands e f) (s : String) :
    Coefficient.of A e (.symbol s) = .rat (f (some s)) := by
  rw [Coefficient.of]
  split
  · obtain rfl := Expr.eq_sym_of_same ‹_›
    rw [h.apply_sym]
    simp [Expr.one, Expr.int, Expr.rat]
  · have hx : (Expr.symbol s).isZero = false := rfl
    have hs : Coefficient.signedFactors (.symbol s) = [.symbol s] := rfl
    obtain ⟨xs, hnd, hmem, hterms⟩ := h.terms
    simp only [hx, Bool.false_eq_true, if_false, hs, length_cons, length_nil, zero_add, hterms,
      filterMap_map]
    rw [filterMap_congr (g := fun x => if x = some s then some (.rat (f (some s))) else none),
      filterMap_ite_eq hnd]
    · by_cases hf : f (some s) = 0
      · simp [(hmem s).not.2 (not_not.2 hf), hf, Expr.zero, Expr.int, Expr.rat]
      · have hadd := hA.add (.cons (stands_rat (f (some s))) .nil)
        rw [sum_singleton] at hadd
        simp [(hmem s).2 hf, hadd.eq_rat]
    · intro x _
      obtain ⟨cs, hcs, hfs⟩ := signedFactors_term (f x) x
      have hrat : (cs.map Expr.rat).filter
        (fun a => !([Expr.symbol s].contains a)) = cs.map Expr.rat := by
        refine filter_eq_self.2 fun a ha => ?_
        obtain ⟨q, -, rfl⟩ := mem_map.1 ha
        rfl
      simp only [Function.comp_apply, hfs, filter_append, hrat]
      rcases x with _ | t
      · simp [given]
      · by_cases ht : t = s
        · simp [ht, beq_sym, hA.mul_rats, hcs, given]
        · simp [ht, beq_sym, given]

end Form

/-! ### Replacement of symbols -/

namespace Substitute

variable {A : Algebra} {o : String} {e new : Expr} {f : Form}

theorem absent_atom {a : Atom} (h : Expr.atom a ≠ .symbol o) (n : Nat) :
    algebraicDeep A n (.symbol o) new (.atom a) = .ok (.atom a) := by
  cases n with
  | zero => rfl
  | succ n =>
    have hne : ¬(Expr.atom a == .symbol o) = true := fun hs => h (Expr.eq_sym_of_same hs)
    simp [algebraicDeep, hne, bind, Except.bind, pure, Except.pure]

theorem absent_list {es : List Expr} (h : ∀ e ∈ es, ∀ n,
      algebraicDeep A n (.symbol o) new e = .ok e) (n : Nat) :
    algebraicList A n (.symbol o) new es = .ok es := by
  induction es generalizing n with
  | nil => cases n <;> rfl
  | cons e es ih =>
    cases n with
    | zero => rfl
    | succ n =>
      rw [algebraicList, h e mem_cons_self, ih fun e he => h e (mem_cons_of_mem _ he)]
      rfl

theorem absent_node {k : Head} {es : List Expr} (hk : k = .add ∨ k = .mul)
    (hes : ∀ e ∈ es, ∀ n, algebraicDeep A n (.symbol o) new e = .ok e) (n : Nat) :
    algebraicDeep A n (.symbol o) new (.node k es) = .ok (.node k es) := by
  cases n with
  | zero => rfl
  | succ n =>
    have hne : (Expr.node k es == .symbol o) = false := Expr.same_node_atom _ _ _
    have hsame : Expr.sameList es es = true :=
      Expr.sameList_iff_forall₂.2 (forall₂_same.2 fun a _ => Expr.same_refl a)
    have hlist := absent_list hes n
    rw [Expr.symbol] at hne hlist ⊢
    rcases hk with rfl | rfl
    all_goals simp [algebraicDeep, hne, hlist, hsame, bind, Except.bind, pure, Except.pure]

/-- A linear form without a symbol stays when the symbol is replaced. -/
theorem algebraicDeep_absent (h : Stands e f) (ho : f (some o) = 0) (n : Nat) :
    algebraicDeep A n (.symbol o) new e = .ok e := by
  obtain ⟨xs, -, hmem, rfl⟩ := h
  have hrat : ∀ (q : ℚ) n, algebraicDeep A n (.symbol o) new (.rat q) = .ok (.rat q) :=
    fun q => absent_atom (by simp [Expr.symbol])
  have hterm : ∀ x ∈ xs, ∀ n, algebraicDeep A n (.symbol o) new
    (term (f x) x) = .ok (term (f x) x) := by
    rintro (_ | s) hx
    · exact hrat _
    · have hs : ∀ n, algebraicDeep A n (.symbol o) new (.symbol s) = .ok (.symbol s) :=
        absent_atom fun h => (hmem _).1 hx (by obtain rfl := symbol_inj.1 h; exact ho)
      rw [term]
      split
      · exact hs
      · refine absent_node (.inr rfl) fun e he => ?_
        simp only [mem_cons, not_mem_nil, or_false] at he
        rcases he with rfl | rfl
        · exact hrat _
        · exact hs
  rcases xs with _ | ⟨x, _ | ⟨y, xs⟩⟩
  · exact hrat 0 n
  · exact hterm x mem_cons_self n
  · refine absent_node (.inl rfl) (fun e he => ?_) n
    obtain ⟨z, hz, rfl⟩ : ∃ z ∈ x :: y :: xs, term (f z) z = e := mem_map.1 he
    exact hterm z hz

theorem algebraic_absent (h : Stands e f) (ho : f (some o) = 0) :
    algebraic A (.symbol o) new e = .ok e := by
  rw [algebraic]
  split
  · rfl
  · exact algebraicDeep_absent h ho _

section Table

variable {K : List String} {G : String → Form} {ps found : Table Expr Expr} {s : String}

theorem algebraicSeq_cons (p : Expr × Expr) (h : algebraic A p.1 p.2 e = .ok new) :
    algebraicSeq A (p :: ps) e = algebraicSeq A ps new := by
  change (algebraic A p.1 p.2 e >>= algebraicSeq A ps) = _
  rw [h]
  rfl

theorem algebraicSeq_absent (hps : ∀ p ∈ ps, ∃ o ∈ K, p.1 = .symbol o) (h : Stands e f)
    (hK : ∀ o ∈ K, f (some o) = 0) :
    algebraicSeq A ps e = .ok e := by
  induction ps with
  | nil => rfl
  | cons p ps ih =>
    obtain ⟨o, ho, hp⟩ := hps p mem_cons_self
    rw [algebraicSeq_cons p (hp ▸ algebraic_absent h (hK o ho))]
    exact ih fun p hp => hps p (mem_cons_of_mem _ hp)

theorem algebraicSeq_sym (hG : ∀ s, ∀ o ∈ K, G s (some o) = 0) (hfree : ∀ s ∉ K, G s = symbol s)
    (hps : ∀ p ∈ ps, ∃ o ∈ K, p.1 = .symbol o ∧ Stands p.2 (G o))
    (hs : s ∈ K → ∃ e, (.symbol s, e) ∈ ps) :
    ∃ e, algebraicSeq A ps (.symbol s) = .ok e ∧ Stands e (G s) := by
  induction ps with
  | nil =>
    have hK : s ∉ K := fun h => by simpa using hs h
    exact ⟨.symbol s, rfl, hfree s hK ▸ stands_sym s⟩
  | cons p ps ih =>
    have htail := fun q (hq : q ∈ ps) => hps q (mem_cons_of_mem _ hq)
    obtain ⟨o, ho, hp, hstands⟩ := hps p mem_cons_self
    by_cases hos : o = s
    · subst hos
      have hne : (Expr.symbol o == p.2) = false := by
        refine Bool.eq_false_iff.2 fun h => ?_
        rw [Expr.eq_sym_of_same (Expr.same_symm h)] at hstands
        exact one_ne_zero (hstands.apply_sym.symm.trans (hG o o ho))
      have hself : (Expr.symbol o == Expr.symbol o) = true := Expr.same_refl _
      have hnew : algebraic A p.1 p.2 (.symbol o) = .ok p.2 :=
        by simp [hp, algebraic, hne, algebraicDeep, hself]
      refine ⟨p.2, ?_, hstands⟩
      rw [algebraicSeq_cons p hnew]
      exact algebraicSeq_absent (fun q hq => (htail q hq).imp fun _ h => ⟨h.1, h.2.1⟩) hstands
        (hG o)
    · rw [algebraicSeq_cons p (hp ▸ algebraic_absent (stands_sym s)
        (by simp [symbol, Ne.symm hos]))]
      refine ih htail fun h => ?_
      obtain ⟨e, he⟩ := hs h
      rcases mem_cons.1 he with rfl | he
      · exact absurd (by simpa using hp.symm) hos
      · exact ⟨e, he⟩

/-- A table of linear forms in symbols that it does not replace takes each symbol to its form. -/
theorem algebraicTable_sym (hG : ∀ s, ∀ o ∈ K, G s (some o) = 0) (hfree : ∀ s ∉ K, G s = symbol s)
    (hfound : ∀ p ∈ found, ∃ o ∈ K, p.1 = .symbol o ∧ Stands p.2 (G o))
    (hK : ∀ o ∈ K, ∃ e, (.symbol o, e) ∈ found) :
    ∃ e, algebraicTable A found (.symbol s) = .ok e ∧ Stands e (G s) := by
  have hne : ∀ p ∈ found, (p.1 == p.2) = false := by
    intro p hp
    obtain ⟨o, ho, h, hstands⟩ := hfound p hp
    refine Bool.eq_false_iff.2 fun hs => ?_
    rw [h] at hs
    rw [Expr.eq_sym_of_same (Expr.same_symm hs)] at hstands
    exact one_ne_zero (hstands.apply_sym.symm.trans (hG o o ho))
  have hmem : ∀ p, p ∈ arrange A found ↔ p ∈ found := by
    intro p
    simp only [arrange, mem_map, mem_mergeSort, mem_filter, Bool.not_eq_true',
      exists_exists_and_eq_and, exists_eq_right]
    exact ⟨fun h => h.1, fun h => ⟨h, hne p h⟩⟩
  exact algebraicSeq_sym hG hfree (fun p hp => hfound p ((hmem p).1 hp)) fun h =>
    (hK s h).imp fun e he => (hmem _).2 he

end Table

end Substitute

end StencilForge
