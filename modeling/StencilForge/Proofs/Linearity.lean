import StencilForge.Proofs.Unknowns

/-!
# Proofs — linear forms in the standard algebra

Sums and multiples of linear forms are linear forms again (`Algebra.standard_linear`): terms of one
symbol are collected (`Sum.build_forms`), and a number is distributed over a sum, whichever way the
product takes (`Product.build_stands`).  A product with zero is zero because nothing is known of a
form that is not a number; that holds on every level (`Algebra.open_level`).
-/

open List StencilForge.Expr

namespace StencilForge

open Form

/-! ### Products -/

namespace Product

variable {A : Algebra}

/-- A product of numbers and one other factor stays, is shortened or is combined. -/
theorem build_cases {e : Expr} (hone : e.isOne = false) (hnum : e.isNum = false) (l r : List ℚ) :
    ∃ l' r' : List ℚ, l'.prod * r'.prod = l.prod * r.prod ∧
      (l'.prod * r'.prod = 1 ∧ build A (l.map .rat ++ e :: r.map .rat) = e ∨
        (∃ q x, l'.prod * r'.prod = q ∧ short A q e = some x ∧
          build A (l.map .rat ++ e :: r.map .rat) = x) ∨
        build A (l.map .rat ++ e :: r.map .rat) = combine A (l'.map .rat ++ e :: r'.map .rat)) := by
  refine ⟨l.filter (· ≠ 1), r.filter (· ≠ 1), by rw [prod_filter_ne_one, prod_filter_ne_one], ?_⟩
  have hfilter : (l.map Expr.rat ++ e :: r.map .rat).filter (!·.isOne) =
      (l.filter (· ≠ 1)).map .rat ++ e :: (r.filter (· ≠ 1)).map .rat := by
    rw [filter_append, filter_cons, filter_isOne_rats, filter_isOne_rats, hone]
    rfl
  rw [build, hfilter]
  generalize l.filter (· ≠ 1) = l'
  generalize r.filter (· ≠ 1) = r'
  rcases l' with _ | ⟨a, _ | ⟨b, _ | ⟨b', l'⟩⟩⟩ <;> rcases r' with _ | ⟨c, _ | ⟨d, r'⟩⟩
  · exact .inl ⟨by simp, rfl⟩
  · refine .inr ?_
    simp only [map_nil, map_cons, nil_append]
    split
    · next x hs => exact .inl ⟨c, x, by simp, hs, rfl⟩
    · exact .inr rfl
  · exact .inr (.inr rfl)
  · refine .inr ?_
    simp only [map_nil, map_cons, nil_append, cons_append]
    split
    · next x hs =>
      refine .inl ⟨a, x, by simp, ?_, rfl⟩
      cases e with
      | node => exact hs
      | atom y => cases y <;> first | exact hs | cases hnum
    · exact .inr rfl
  all_goals exact .inr (.inr rfl)

theorem assemble_symbol (hA : A.Open) (p : ℚ) (s : String) :
    assemble A (some (.rat p)) [.symbol s] = if p = 0 then .zero else term p (some s) := by
  have hfinite : A.isNot .finite (.symbol s) = false := by
    rw [Algebra.isNot, hA.facts_symbolic ⟨1, s, one_ne_zero, by simp [term]⟩, Judgement.fails_none]
  by_cases h0 : p = 0
  · simp [assemble, Number.isZero, h0, hfinite, zero, int]
  · rw [if_neg h0, term]
    split
    · next h1 => simp [assemble, Number.isZero, Number.isOne, h1, isNum, Expr.symbol, mulOf]
    · next h1 => exact assemble_sym h0 h1 _

theorem build_symbolic (hA : A.next.Open) {c : ℚ} (hc : c ≠ 0) (s : String) (l r : List ℚ) :
    build A.next (l.map .rat ++ term c (some s) :: r.map .rat) =
      if l.prod * r.prod = 0 then .zero else term (l.prod * r.prod * c) (some s) := by
  have hshort : ∀ q, short A.next q (term c (some s)) = none := by
    intro q
    rw [short, term]
    split_ifs <;> rfl
  have hone : (term c (some s)).isOne = false := by
    rw [term]
    split <;> rfl
  have hnum : (term c (some s)).isNum = false := by
    rw [term]
    split <;> rfl
  obtain ⟨l', r', hprod, ⟨h1, h⟩ | ⟨q, x, -, hx, -⟩ | h⟩ := build_cases hone hnum l r (A := A.next)
  · rw [h, ← hprod, h1]
    simp
  · rw [hshort] at hx
    cases hx
  · rw [h, ← hprod]
    by_cases hc1 : c = 1
    · rw [combine_base (b := .symbol s) (.symbol _) (l := l') (r := r'), assemble_symbol hA, hc1,
        mul_one]
      rw [flatFactorsList_append, flatFactorsList, flatFactorsList_rats, flatFactorsList_rats, hc1]
      simp [term, Expr.symbol, flatFactors]
    · rw [combine_base (b := .symbol s) (.symbol _) (l := l' ++ [c]) (r := r'), assemble_symbol hA]
      · simp [hc, mul_right_comm]
      · rw [flatFactorsList_append, flatFactorsList, flatFactorsList_rats, flatFactorsList_rats]
        simp [term, hc1, Expr.symbol, Expr.rat, flatFactors, flatFactorsList]

/-- Before powers are built, a symbol keeps the exponent that was gathered. -/
theorem build_bare {m : ℤ} (h0 : m ≠ 0) (h1 : m ≠ 1) (s : String) :
    build .bare [.int m, .symbol s] =
    .mul [.int m, .pow (.symbol s) (.mul [.add [.one], .one])] := by
  have hg : gather .bare [(.symbol s, .one)] = [(.symbol s, .mul [.add [.one], .one])] := rfl
  have hself : (Expr.symbol s != .symbol s) = false := by
    rw [bne, show (Expr.symbol s == .symbol s) = true from same_refl _]
    rfl
  have hturn : turn .bare (some (.rat m)) [(.symbol s, .mul [.add [.one], .one])] =
      { number := some (.rat m), factors := [.pow (.symbol s) (.mul [.add [.one], .one])],
        powers := [(.symbol s, .mul [.add [.one], .one])] } := by
    have htake : Turned.take .bare { number := some (.rat m) } (.symbol s,
      .mul [.add [.one], .one]) =
        { number := some (.rat m), factors := [.pow (.symbol s) (.mul [.add [.one], .one])],
          powers := [(.symbol s, .mul [.add [.one], .one])],
          changed := Expr.symbol s != .symbol s } := rfl
    simp only [turn, foldl_cons, foldl_nil, htake, hself, Bool.false_and]
    rfl
  have hfilter : [Expr.int m, .symbol s].filter (!·.isOne) = [.int m, .symbol s] := by
    simp [isOne_int, h1, show (Expr.symbol s).isOne = false from rfl]
  have hshort : short .bare m (.symbol s) = none := by
    rw [short]
    split <;> rfl
  have hcombine : combine .bare [.int m, .symbol s] =
      .mul [.int m, .pow (.symbol s) (.mul [.add [.one], .one])] := by
    rw [combine_eq m [(.symbol s, .one)] ?_ (by rw [hg, hturn]) rfl rfl]
    · simp [assemble, Number.isZero, Number.isOne, h0, h1, isNum, sorted, mulOf, int]
    · simp [flatFactorsList, flatFactors, settle, int, Expr.symbol, Collected.take, Collected.scale,
        Algebra.baseExp, Number.one]
  rw [build, hfilter]
  simp only [Expr.symbol, int] at hshort hcombine ⊢
  simp only [hshort, hcombine]

end Product

/-! ### Every level -/

namespace Algebra

theorem numbers_next (A : Algebra) {q : ℚ} (hq : q ≠ 0) :
    A.next.facts (.rat q) ∈ Judgement.numeric := by
  have hfacts : A.next.facts (.rat q) = Number.facts (.rat q) := by
    simp only [next, Expr.rat, Judgement.factsOf]
  exact hfacts ▸ Judgement.facts_rat_mem hq

theorem mul_int_one (A : Algebra) (k : ℤ) : A.next.mul [.int k, .one] = .int k := by
  have h := Product.build_rats (A := A) [(k : ℚ), 1]
  rw [prod_pair, mul_one] at h
  exact h

theorem same_term_int {c : ℚ} {s : String} (k : ℤ) : (term c (some s) == .int k) = false := by
  rw [term]
  split <;> rfl

theorem Open.next_next {A : Algebra} (hA : A.next.Open) : A.next.next.Open where
  facts h := hA.facts_next h
  numbers hq := numbers_next _ hq
  parts {m} k s hm := by
    have hmul : A.next.next.mul [.int m, .symbol s] = term m (some s) := by
      have h := Product.build_symbolic hA one_ne_zero s [(m : ℚ)] []
      simp only [prod_cons, prod_nil, mul_one, Int.cast_eq_zero, hm, if_false] at h
      exact h
    have hm' : (m : ℚ) ≠ 0 := by exact_mod_cast hm
    rw [mul_int_one, hmul]
    refine ⟨?_, same_term_int k⟩
    have hmixed : Mixed [term m (some s)] :=
      ⟨by simpa using ⟨(m : ℚ), _, hm', rfl⟩, _, mem_cons_self, m, s, hm', rfl⟩
    exact hA.facts_next hmixed

theorem open_next_bare : Algebra.bare.next.Open where
  facts h := open_bare.facts_next h
  numbers hq := numbers_next _ hq
  parts {m} k s hm := by
    rw [mul_int_one]
    by_cases h1 : m = 1
    · have hmul : bare.next.mul [.int m, .symbol s] = .symbol s := by
        rw [h1]
        rfl
      rw [hmul]
      exact ⟨rfl, rfl⟩
    · rw [show bare.next.mul [.int m, .symbol s] = _ from Product.build_bare hm h1 s]
      refine ⟨?_, rfl⟩
      have hgroup : Judgement.group [none, none] = none := rfl
      have hfacts : ∀ e, bare.facts e = .none := fun _ => rfl
      have hparts : Judgement.productParts bare [.int m,
        .pow (.symbol s) (.mul [.add [.one], .one])] =
          (.mul [.int m, .pow (.symbol s) (.mul [.add [.one], .one])], .mul [.one, .one]) := rfl
      have hsame : (Expr.mul [.int m, .pow (.symbol s) (.mul [.add [.one], .one])] ==
          .mul [.one, .one]) = false := by
        refine Bool.eq_false_iff.2 fun h => ?_
        cases sameList_iff_forall₂.1 (same_node_iff.1 h).2 with
        | cons _ htail =>
          cases htail with
          | cons hsame _ => cases hsame
      refine Judgement.facts_mul_eq_none (N := .none) mem_cons_self rfl ?_
      simp [Judgement.productInteger, hparts, hgroup, is, hfacts, hsame, given]

theorem open_level : ∀ n, (level n).Open
  | 0 => open_bare
  | 1 => open_next_bare
  | n + 2 => (open_level (n + 1)).next_next

end Algebra

/-! ### Sums -/

namespace Form

variable {e : Expr} {f g : Form} {xs : List (Option String)} {x : Option String} {c : ℚ}

theorem sum_single (hnd : xs.Nodup) (h : ∀ x, f x ≠ 0 → x ∈ xs) :
    (xs.map fun x => Finsupp.single x (f x)).sum = f := by
  classical
  have hsub : f.support ⊆ xs.toFinset := fun x hx =>
    mem_toFinset.2 (h x (Finsupp.mem_support_iff.1 hx))
  rw [← sum_toFinset _ hnd]
  refine (Finset.sum_subset hsub fun x _ hx => ?_).symm.trans (Finsupp.sum_single f)
  rw [Finsupp.notMem_support_iff.1 hx, Finsupp.single_zero]

theorem term_ne_add (c : ℚ) (x : Option String) (ts : Exprs) : term c x ≠ .add ts := by
  cases x with
  | none => simp [term, Expr.rat]
  | some s =>
    rw [term]
    split <;> simp [Expr.symbol]

theorem Stands.flatTerms (h : Stands e f) : ∃ xs : List (Option String),
    (xs.map fun x => Finsupp.single x (f x)).sum = f ∧
      Sum.flatTerms e = xs.map fun x => term (f x) x := by
  obtain ⟨xs, hnd, hmem, rfl⟩ := h
  have hsum := sum_single hnd fun x hx => (hmem x).2 hx
  have hflat : ∀ c x, Sum.flatTerms (term c x) = [term c x] := by
    rintro c (_ | s)
    · rfl
    · rw [term]
      split <;> rfl
  rcases xs with _ | ⟨x, _ | ⟨y, xs⟩⟩
  · obtain rfl : 0 = f := hsum
    exact ⟨[none], by simp, rfl⟩
  · exact ⟨[x], hsum, hflat _ _⟩
  · refine ⟨_, hsum, ?_⟩
    change Sum.flatTermsList ((x :: y :: xs).map fun x => term (f x) x) = _
    generalize x :: y :: xs = zs
    induction zs with
    | nil => rfl
    | cons z zs ih => rw [map_cons, Sum.flatTermsList, hflat, ih, singleton_append]

theorem Stands.eq_zero (h : Stands e f) (hz : e.isZero = true) : f = 0 := by
  obtain ⟨xs, hnd, hmem, rfl⟩ := h
  rcases xs with _ | ⟨x, _ | ⟨y, xs⟩⟩
  · ext x
    simpa using (hmem x).not.1 not_mem_nil
  · have hx := (hmem x).1 mem_cons_self
    cases x with
    | none => simp [addOf, term, Expr.rat, isZero, Number.zero, hx] at hz
    | some s =>
      simp only [map_cons, map_nil, addOf, term] at hz
      split at hz <;> cases hz
  · cases hz

/-- A sum of forms loses its zeros. -/
theorem filter_isZero {es : Exprs} {fs : List Form} (h : Forall₂ Stands es fs) :
    ∃ gs, Forall₂ Stands (es.filter (!·.isZero)) gs ∧ gs.sum = fs.sum := by
  induction h with
  | nil => exact ⟨[], .nil, rfl⟩
  | @cons e f es fs he _ ih =>
    obtain ⟨gs, hgs, hsum⟩ := ih
    cases hz : e.isZero with
    | true => exact ⟨gs, by simpa [hz] using hgs, by simp [hsum, he.eq_zero hz]⟩
    | false => exact ⟨f :: gs, by simpa [hz] using ⟨he, hgs⟩, by simp [hsum]⟩

end Form

namespace Sum

variable {A : Algebra} {f : Form} {s : String} {ns : List String} {v : String → Number}

theorem alter_symbols (hnd : ns.Nodup) (g : Option Number → Number) :
    Table.alter (.symbol s) g (ns.map fun t => (Expr.symbol t, v t)) =
      if s ∈ ns then ns.map fun t => (.symbol t, if t = s then g (some (v t)) else v t)
      else (ns.map fun t => (.symbol t, v t)) ++ [(.symbol s, g none)] := by
  induction ns with
  | nil => rfl
  | cons n ns ih =>
    obtain ⟨hn, hnd⟩ := nodup_cons.1 hnd
    rw [map_cons, Table.alter, beq_sym]
    by_cases h : n = s
    · subst h
      have htail : (ns.map fun t => (Expr.symbol t, if t = n then g (some (v t)) else v t)) =
          ns.map fun t => (.symbol t, v t) := by
        refine map_congr_left fun t ht => ?_
        rw [if_neg (ne_of_mem_of_not_mem ht hn)]
      simp [htail]
    · rw [ih hnd]
      by_cases hs : s ∈ ns <;> simp [h, Ne.symm h, hs]

/-- The collected number and terms are those of the form. -/
def Holds (c : Collected) (f : Form) : Prop :=
  ∃ ns : List String, ns.Nodup ∧ (∀ s, f (some s) ≠ 0 → s ∈ ns) ∧
    c = ⟨some (.rat (f none)), ns.map fun s => (.symbol s, .rat (f (some s))), false⟩

theorem Holds.take {c : Collected} (h : Holds c f) (d : ℚ) (x : Option String) :
    Holds (c.take (term d x)) (f + .single x d) := by
  classical
  obtain ⟨ns, hnd, hns, rfl⟩ := h
  cases x with
  | none =>
    refine ⟨ns, hnd, by simpa using hns, ?_⟩
    simp [term, Expr.rat, Collected.take]
  | some s =>
    have hcoeff : ∀ c, Collected.take c (term d (some s)) =
        ⟨c.number, Table.alter (.symbol s)
          (fun v => (v.map (·.add (.rat d))).getD (.rat d)) c.terms,
          c.broken⟩ := by
      intro c
      rw [term]
      split
      · next h =>
        rw [h]
        rfl
      · rfl
    have hother : ∀ t, t ≠ s → (f + Finsupp.single (some s) d) (some t) = f (some t) := by
      intro t ht
      simp [Ne.symm ht]
    rw [hcoeff, alter_symbols hnd]
    by_cases hs : s ∈ ns
    · refine ⟨ns, hnd, fun t ht => ?_, ?_⟩
      · by_cases hts : t = s
        · exact hts ▸ hs
        · exact hns t (hother t hts ▸ ht)
      · simp only [if_pos hs, Collected.mk.injEq, and_true]
        refine ⟨by simp, map_congr_left fun t _ => ?_⟩
        split
        · next hts => simp [hts]
        · next hts => rw [hother t hts]
    · have hzero : f (some s) = 0 := not_not.1 fun h => hs (hns s h)
      refine ⟨ns ++ [s], hnd.append (nodup_singleton s) (by simpa using hs), fun t ht => ?_, ?_⟩
      · by_cases hts : t = s
        · simp [hts]
        · exact mem_append_left _ (hns t (hother t hts ▸ ht))
      · simp only [if_neg hs, Collected.mk.injEq, and_true]
        refine ⟨by simp, ?_⟩
        rw [map_append, map_singleton]
        congr 1
        · refine map_congr_left fun t ht => ?_
          rw [hother t (ne_of_mem_of_not_mem ht hs)]
        · simp [hzero]

theorem Holds.foldl {c : Collected} (h : Holds c f) (g : Option String → ℚ)
    (xs : List (Option String)) : Holds ((xs.map fun x => term (g x) x).foldl Collected.take c)
      (f + (xs.map fun x => Finsupp.single x (g x)).sum) := by
  induction xs generalizing c f with
  | nil => simpa using h
  | cons x xs ih =>
    rw [map_cons, foldl_cons, map_cons, sum_cons, ← add_assoc]
    exact ih (h.take (g x) x)

theorem settle_term (c : ℚ) (x : Option String) : settle A (term c x) = [term c x] := by
  cases x with
  | none => rfl
  | some s =>
    rw [term]
    split <;> rfl

/-- The terms of forms are collected to those of their sum. -/
theorem Holds.forms {c : Collected} (h : Holds c f) {es : Exprs} {fs : List Form}
    (hes : Forall₂ Stands es fs) :
    Holds (((flatTermsList es).flatMap (settle A)).foldl Collected.take c) (f + fs.sum) := by
  induction hes generalizing c f with
  | nil => simpa [flatTermsList] using h
  | @cons e g es fs he _ ih =>
    obtain ⟨xs, hsum, hflat⟩ := he.flatTerms
    have hsettle : (xs.map fun x => term (g x) x).flatMap (settle A) =
      xs.map fun x => term (g x) x := by
      rw [flatMap_map, map_eq_flatMap]
      simp only [settle_term]
    rw [flatTermsList, flatMap_append, foldl_append, hflat, hsettle, sum_cons, ← add_assoc, ← hsum]
    have hfold := h.foldl g xs
    rw [hsum] at hfold ⊢
    exact ih hfold

end Sum

/-- A number in front of a symbol stays there. -/
def Algebra.Keeps (A : Algebra) : Prop :=
  ∀ {q : ℚ} (s : String), q ≠ 0 → q ≠ 1 → A.mul [.rat q, .symbol s] = .mul [.rat q, .symbol s]

theorem exists_eq_map_of_perm {α β : Type} {g : α → β} {l : List β} {xs : List α}
    (h : l.Perm (xs.map g)) : ∃ ys : List α, l = ys.map g ∧ ys.Perm xs := by
  obtain ⟨ys, hys, hxy⟩ := perm_comp_forall₂ (r := fun b a => b = g a) h
    (forall₂_map_left_iff.2 (forall₂_same.2 fun _ _ => rfl))
  exact ⟨ys, forall₂_eq_eq_eq ▸ forall₂_map_right_iff.2 hys, hxy⟩

/-- Some of the terms may be sorted. -/
theorem Form.stands_sorted {f : Form} (zs xs : List (Option String)) (hnd : (zs ++ xs).Nodup)
    (hmem : ∀ x, x ∈ zs ++ xs ↔ f x ≠ 0) :
    Stands (addOf ((zs.map fun x => term (f x) x) ++ Expr.sorted (xs.map fun x => term (f x) x)))
      f := by
  obtain ⟨ys, hsorted, hxy⟩ := exists_eq_map_of_perm
    (l := Expr.sorted (xs.map fun x => term (f x) x))
    (mergeSort_perm _ _)
  have hperm : (zs ++ ys).Perm (zs ++ xs) := hxy.append_left zs
  refine ⟨zs ++ ys, hperm.nodup_iff.2 hnd, fun x => by rw [hperm.mem_iff, hmem], ?_⟩
  rw [hsorted, map_append]

namespace Sum

theorem scaled_symbol (hA : A.Keeps) (s : String) (k : ℚ) :
    scaled A (.symbol s) (.rat k) = if k = 0 then none else some (term k (some s)) := by
  unfold scaled
  by_cases h0 : k = 0
  · simp [Number.isZero, h0]
  · by_cases h1 : k = 1
    · simp [Number.isZero, Number.isOne, h1, term]
    · have hmul := hA s h0 h1
      simpa [Number.isZero, Number.isOne, h0, h1, term, Expr.symbol, Expr.rat] using hmul

theorem holds_zero : Holds {} 0 := ⟨[], nodup_nil, by simp, rfl⟩

/-- Sums of linear forms are collected. -/
theorem build_forms (hA : A.Keeps) {es : Exprs} {fs : List Form} (h : Forall₂ Stands es fs) :
    Stands (build A es) fs.sum := by
  obtain ⟨gs, hgs, hsum⟩ := filter_isZero h
  rw [← hsum]
  rcases hes : es.filter (!·.isZero) with _ | ⟨e, _ | ⟨e', es'⟩⟩
  · rw [hes] at hgs
    cases hgs
    simpa only [build, hes, sum_nil] using stands_zero
  · rw [hes] at hgs
    obtain ⟨g, rfl, hg⟩ : ∃ g, gs = [g] ∧ Stands e g := by
      cases hgs with
      | cons hg hnil =>
        cases hnil
        exact ⟨_, rfl, hg⟩
    simpa only [build, hes, sum_singleton] using hg
  · obtain ⟨ns, hnd, hns, hc⟩ := (holds_zero.forms (A := A) hgs)
    rw [zero_add, hes] at hc
    rw [zero_add] at hns
    generalize gs.sum = f at hc hns
    have hnan : (ns.map fun s => (Expr.symbol s, Number.rat (f (some s)))).any
      (·.2 == .nan) = false := by
      simp
    have hsurvive : ∀ ts es, survive A ⟨some (.rat (f none)), ts, false⟩ es = es := fun _ _ => rfl
    have hscaled : (ns.map fun s => (Expr.symbol s, Number.rat (f (some s)))).filterMap
        (fun x => scaled A x.1 x.2) =
          ((ns.filter fun s => f (some s) ≠ 0).map some).map fun x => term (f x) x := by
      rw [filterMap_map, map_map, ← filterMap_eq_map, filterMap_filter]
      refine filterMap_congr fun s _ => ?_
      rw [Function.comp_apply, scaled_symbol hA]
      by_cases h0 : f (some s) = 0 <;> simp [h0]
    have hstands := stands_sorted (f := f) (if f none = 0 then [] else [none])
      ((ns.filter fun s => f (some s) ≠ 0).map some)
      (Nodup.append (by split <;> simp) ((hnd.filter _).map (Option.some_injective _))
        (by split <;> simp)) (by
        intro x
        rw [mem_append]
        cases x with
        | none => by_cases h0 : f none = 0 <;> simp [h0]
        | some s => by_cases h0 : f none = 0 <;> simpa [h0] using hns s)
    rw [← hscaled] at hstands
    simp only [build, hes, hc, hnan, hsurvive]
    by_cases h0 : f none = 0
    · simpa [h0, Number.zero] using hstands
    · simpa [h0, Number.zero, Expr.rat, term] using hstands

end Sum

/-! ### Multiples of sums -/

/-- The products and sums that multiples of a sum are built from. -/
structure Algebra.Scales (A : Algebra) : Prop where
  isOpen : A.Open
  mul : ∀ {q c : ℚ} (x : Option String), q ≠ 0 → c ≠ 0 →
    A.mul [.rat q, term c x] = term (q * c) x
  add : ∀ {es fs}, Forall₂ Stands es fs → Stands (A.add es) fs.sum

namespace Product

variable {A : Algebra} {f : Form} {q c : ℚ} {ts : Exprs} {xs : List (Option String)}

theorem keepCoeff_term (hA : A.Scales) (h0 : q ≠ 0) (h1 : q ≠ 1) (hc : c ≠ 0) (x : Option String) :
    A.keepCoeff (.rat q) (term c x) = term (q * c) x := by
  have hmul := hA.mul x h0 hc
  have hone : (Number.rat q).isOne = false := by simpa [Number.isOne] using h1
  unfold Algebra.keepCoeff
  rw [hone]
  by_cases hneg : q = -1
  · have hnegOne : (Number.rat q).isNegOne = true := by simp [Number.isNegOne, hneg]
    rw [hnegOne]
    simpa [Algebra.neg, negOne, int, Expr.rat, hneg] using hmul
  · have hnegOne : (Number.rat q).isNegOne = false := by simp [Number.isNegOne, hneg]
    rw [hnegOne]
    cases x with
    | none => exact hmul
    | some s =>
      by_cases hc1 : c = 1
      · rw [hc1] at hmul ⊢
        exact hmul
      · rw [term, if_neg hc1, term, mul_comm q c]
        by_cases hp : c * q = 1 <;> simp [Expr.rat, Number.isOne, hp, mulOf]

section

variable {x y : Option String} {zs : List (Option String)} (hnd : (x :: y :: zs).Nodup)
  (hmem : ∀ z, z ∈ x :: y :: zs ↔ f z ≠ 0)

include hnd hmem

/-- Of two different terms one has a symbol. -/
theorem mixed_terms : Mixed ((x :: y :: zs).map fun z => term (f z) z) := by
  have hterm : ∀ z ∈ x :: y :: zs, f z ≠ 0 := fun z hz => (hmem z).1 hz
  refine ⟨fun t ht => ?_, ?_⟩
  · obtain ⟨z, hz, rfl⟩ := mem_map.1 ht
    exact ⟨f z, z, hterm z hz, rfl⟩
  · obtain ⟨s, hs⟩ : ∃ s, some s ∈ x :: y :: zs := by
      cases x with
      | some s => exact ⟨s, mem_cons_self⟩
      | none =>
        cases y with
        | some s => exact ⟨s, mem_cons_of_mem _ mem_cons_self⟩
        | none => simp at hnd
    exact ⟨_, mem_map_of_mem hs, f (some s), s, hterm _ hs, rfl⟩

theorem assemble_sum (hA : A.Scales) (p : ℚ) :
    Stands (assemble A (some (.rat p)) [.add ((x :: y :: zs).map fun z => term (f z) z)])
      (p • f) := by
  have hself : Stands (.add ((x :: y :: zs).map fun z => term (f z) z)) f := ⟨_, hnd, hmem, rfl⟩
  have hfinite : A.isNot .finite (.add ((x :: y :: zs).map fun z => term (f z) z)) = false := by
    have hfacts := hA.isOpen.facts (mixed_terms hnd hmem)
    change (A.facts (addOf ((x :: y :: zs).map fun z => term (f z) z))).fails .finite = false
    rw [hfacts, Judgement.fails_none]
  have hsum : ((x :: y :: zs).map fun z => Finsupp.single z ((p • f) z)).sum = p • f :=
    sum_single hnd fun z hz => (hmem z).2 fun h => hz (by simp [h])
  have hadd (h0 : p ≠ 0) : Stands (A.add (((x :: y :: zs).map fun z => term (f z) z).map
      fun t => A.mul [.rat p, t])) (p • f) := by
    rw [← hsum, map_map]
    refine hA.add (forall₂_map_left_iff.2 (forall₂_map_right_iff.2 (forall₂_same.2 fun z hz => ?_)))
    have hz := (hmem z).1 hz
    rw [Function.comp_apply, hA.mul z h0 hz]
    exact stands_single (mul_ne_zero h0 hz)
  generalize (x :: y :: zs).map (fun z => term (f z) z) = ts at hself hfinite hadd
  by_cases h0 : p = 0
  · simpa [assemble, Number.isZero, h0, hfinite, zero, int] using stands_zero
  · by_cases h1 : p = 1
    · simpa [assemble, Number.isZero, Number.isOne, h1, isNum, mulOf] using hself
    · simpa [assemble, Number.isZero, Number.isOne, h0, h1, isNum, mulOf, Number.isFinite,
        Expr.rat] using hadd h0

theorem short_sum (hA : A.Scales) {e : Expr}
    (h : short A q (.add ((x :: y :: zs).map fun z => term (f z) z)) = some e) :
    Stands e (q • f) := by
  have hk : Number.one.mul (.rat q) = .rat q := by simp [Number.one]
  by_cases h0 : q = 0
  · simp [short, h0] at h
  · have hmemq : ∀ z, z ∈ x :: y :: zs ↔ (q • f) z ≠ 0 := fun z => by
      rw [hmem, Finsupp.smul_apply, smul_eq_mul, mul_ne_zero_iff]
      exact ⟨fun h => ⟨h0, h⟩, And.right⟩
    by_cases h1 : q = 1
    · have he : e = .add ((x :: y :: zs).map fun z => term (f z) z) := by
        simpa [short, h1, coeffMul, Number.one, Number.isOne] using h.symm
      rw [he, h1, one_smul]
      exact ⟨_, hnd, hmem, rfl⟩
    · have hkeep : ∀ l ⊆ x :: y :: zs, (l.map fun z => term (f z) z).map (A.keepCoeff (.rat q)) =
          l.map fun z => term ((q • f) z) z := by
        intro l hl
        rw [map_map]
        refine map_congr_left fun z hz => ?_
        exact keepCoeff_term hA h0 h1 ((hmem z).1 (hl hz)) z
      cases x with
      | none =>
        have hstands := stands_sorted [none] (y :: zs) hnd hmemq
        rw [← hkeep _ (subset_cons_self ..)] at hstands
        have hne : q * f none ≠ 0 := (hmemq none).1 mem_cons_self
        have hshort : short A q (.add ((none :: y :: zs).map fun z => term (f z) z)) =
            some (addOf (.rat (f none * q) :: Expr.sorted
              (((y :: zs).map fun z => term (f z) z).map (A.keepCoeff (.rat q))))) := by
          rw [mul_comm] at hne
          simp only [short, if_neg h0, coeffMul, hk]
          simp [Number.isOne, h1, Number.isZero, hne, term, Expr.rat]
        rw [hshort] at h
        obtain rfl := Option.some.inj h
        simpa [term, mul_comm] using hstands
      | some s =>
        have hstands := stands_sorted [] (some s :: y :: zs) hnd hmemq
        rw [← hkeep _ (Subset.refl _)] at hstands
        have hshort : short A q (.add ((some s :: y :: zs).map fun z => term (f z) z)) =
            some (addOf (Expr.sorted
              (((some s :: y :: zs).map fun z => term (f z) z).map (A.keepCoeff (.rat q))))) := by
          have hhead : ∀ r, short A q (.add (term (f (some s)) (some s) :: r)) = some (addOf
              (Expr.sorted ((term (f (some s)) (some s) :: r).map (A.keepCoeff (.rat q))))) := by
            intro r
            rw [term]
            split
            · simp only [short, if_neg h0, coeffMul, hk, Expr.symbol]
              simp [Number.isOne, h1, Number.isZero, Number.zero]
            · simp only [short, if_neg h0, coeffMul, hk]
              simp [Number.isOne, h1, Number.isZero, Number.zero]
          exact hhead _
        rw [hshort] at h
        obtain rfl := Option.some.inj h
        exact hstands

end

/-- A multiple of a linear form is built as one. -/
theorem build_stands {e : Expr} (hA : A.next.Scales) (h : Stands e f) (l r : List ℚ) :
    Stands (build A.next (l.map .rat ++ e :: r.map .rat)) ((l.prod * r.prod) • f) := by
  obtain ⟨xs, hnd, hmem, rfl⟩ := h
  have hsum := sum_single hnd fun x hx => (hmem x).2 hx
  have hrat : ∀ q, f = Form.const q → Stands (build A.next (l.map .rat ++ .rat q :: r.map .rat))
      ((l.prod * r.prod) • f) := by
    rintro q rfl
    have hbuild := build_rats (A := A.next) (l ++ q :: r)
    rw [map_append, map_cons] at hbuild
    rw [hbuild, prod_append, prod_cons, const_smul, mul_right_comm, mul_assoc]
    exact stands_rat _
  rcases xs with _ | ⟨x, _ | ⟨y, zs⟩⟩
  · exact hrat 0 (by simpa [Form.const] using hsum.symm)
  · have hx := (hmem x).1 mem_cons_self
    have hsingle : f = .single x (f x) := by simpa using hsum.symm
    cases x with
    | none => exact hrat (f none) hsingle
    | some s =>
      rw [map_singleton, addOf, build_symbolic hA.isOpen hx]
      generalize f (some s) = c at hx hsingle
      rw [hsingle, Finsupp.smul_single, smul_eq_mul]
      split
      · next h0 => simpa [h0] using stands_zero
      · next h0 => exact stands_single (mul_ne_zero h0 hx)
  · have hadd : addOf ((x :: y :: zs).map fun z => term (f z) z) =
        .add ((x :: y :: zs).map fun z => term (f z) z) := rfl
    rw [hadd]
    obtain ⟨l', r', hprod, ⟨h1, hb⟩ | ⟨q, e, hq, hs, hb⟩ | hb⟩ := build_cases (A := A.next)
      (e := .add ((x :: y :: zs).map fun z => term (f z) z)) rfl rfl l r
    · rw [hb, ← hprod, h1, one_smul]
      exact ⟨_, hnd, hmem, rfl⟩
    · rw [hb, ← hprod, hq]
      exact short_sum hnd hmem hA hs
    · rw [hb, ← hprod, combine_base (.sum _) (l := l') (r := r')]
      · exact assemble_sum hnd hmem hA _
      · rw [flatFactorsList_append, flatFactorsList, flatFactorsList_rats, flatFactorsList_rats]
        rfl

end Product

/-! ### The standard algebra -/

namespace Algebra

variable {A : Algebra} {q c : ℚ}

theorem Open.keeps (hA : A.next.Open) : A.next.next.Keeps := by
  intro q s h0 h1
  have h := Product.build_symbolic hA one_ne_zero s [q] []
  simp only [prod_cons, prod_nil, mul_one, h0, if_false] at h
  rw [← show term q (some s) = _ from if_neg h1]
  exact h

theorem Open.scales (hA : A.next.Open) : A.next.next.next.Scales where
  isOpen := hA.next_next.next_next
  mul {q c} x h0 hc := by
    cases x with
    | none =>
      have h := Product.build_rats (A := A.next.next) [q, c]
      rw [prod_pair] at h
      exact h
    | some s =>
      have h := Product.build_symbolic hA.next_next hc s [q] []
      simp only [prod_cons, prod_nil, mul_one, h0, if_false] at h
      exact h
  add h := Sum.build_forms hA.keeps h

theorem ratPow_negOne (h0 : q ≠ 0) (h1 : q ≠ -1) : Power.ratPow A q (-1) = some (.rat q⁻¹) := by
  have hpow : Product.numberPow (.rat q) (-1) = .rat q⁻¹ := by simp [Product.numberPow]
  rw [Power.ratPow, if_neg h0, if_neg h1]
  exact congrArg (some ∘ Expr.num) hpow

theorem pow_negOne_of_pos (A : Algebra) (hq : 0 < q) : A.next.pow (.rat q) .negOne = .rat q⁻¹ := by
  have hneg : (Expr.rat q).hasNegCoeff = false := by
    simp [hasNegCoeff, Expr.rat, Number.isNeg, hq.le]
  have hzero : (Expr.rat q).num?.any Number.isZero = false := by
    simp [Expr.rat, Expr.num?, Number.isZero, hq.ne']
  have hgeneral : Power.general A (.rat q) .negOne = .rat q⁻¹ := by
    have hbase : Power.ofBase A (.rat q) .negOne = some (.rat q⁻¹) :=
      ratPow_negOne hq.ne' (by linarith)
    have hlog : Power.logQuotient? (.rat q) .negOne = none := rfl
    simp [Power.general, hlog, hbase]
  have hone : (if (Expr.rat q).isOne then .one else Power.general A (.rat q) .negOne) =
      Expr.rat q⁻¹ := by
    rw [hgeneral, Product.isOne_rat]
    by_cases h1 : q = 1 <;> simp [h1, one, int, Expr.rat]
  change Power.build A (.rat q) .negOne = _
  simp only [Power.build, hzero, hneg, Bool.and_false, Bool.false_and]
  exact hone

theorem pow_negOne (A : Algebra) (hq : q ≠ 0) : A.next.next.pow (.rat q) .negOne = .rat q⁻¹ := by
  rcases lt_or_gt_of_ne hq with hlt | hgt
  · have hfacts : A.next.facts .negOne = Number.facts (.rat (-1 : Int)) := by
      simp only [next, negOne, int, Judgement.factsOf]
    have hodd : A.next.is .integer .negOne = true ∧ A.next.is .odd .negOne = true := by
      rw [Algebra.is, Algebra.is, hfacts]
      decide +kernel
    have hneg : ∀ p : ℚ, A.next.neg (.rat p) = .rat (-p) := fun p => by
      have h := Product.build_rats (A := A) [-1, p]
      rw [prod_pair, neg_one_mul] at h
      exact h
    have hpow := pow_negOne_of_pos A (neg_pos.2 hlt)
    have hzero : (Expr.rat q).num?.any Number.isZero = false := by
      simp [Expr.rat, Expr.num?, Number.isZero, hq]
    have hcoeff : (Expr.rat q).hasNegCoeff = true := by
      simp [hasNegCoeff, Expr.rat, Number.isNeg, hlt]
    have hflip : A.next.neg (A.next.pow (A.next.neg (.rat q)) .negOne) = .rat q⁻¹ := by
      rw [hneg, hpow, hneg, inv_neg, neg_neg]
    change Power.build A.next (.rat q) .negOne = _
    simp only [Power.build, hzero, hcoeff, hodd, Bool.and_false, Bool.and_true]
    exact hflip
  · exact pow_negOne_of_pos A.next hgt

/-- Linear forms in plain symbols are collected from the third level on. -/
theorem Open.linear (hA : A.next.Open) : A.next.next.next.next.Linear where
  add h := hA.next_next.scales.add h
  mul {e f r es} h hes := by
    obtain ⟨s, t, rfl⟩ := append_of_mem (hes.mem_iff.2 mem_cons_self)
    have hperm : (s ++ t).Perm (r.map .rat) := (perm_middle.symm.trans hes).cons_inv
    obtain ⟨ys, hys, hyr⟩ := exists_eq_map_of_perm hperm
    obtain ⟨l, r', rfl, rfl, rfl⟩ := map_eq_append_iff.1 hys.symm
    rw [← hyr.prod_eq, prod_append]
    exact Product.build_stands hA.scales h l r'
  one := rfl
  inv hq := pow_negOne _ hq

theorem standard_linear : standard.Linear := (open_level 147).linear

end Algebra

end StencilForge
