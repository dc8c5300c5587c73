import StencilForge.Proofs.Signs
import StencilForge.Proofs.Forms

/-!
# Proofs — what is known of linear forms

Nothing is known of a plain symbol, and so nothing of a linear form in plain symbols that is not a
number (`Algebra.Open`).  One level hands this on to the next (`Algebra.Open.facts_next`): every
judgement of a sum or of a product with a number meets a part that it knows nothing about.
-/

open List StencilForge.Expr

namespace StencilForge

open Form

/-! ### Facts -/

namespace Judgement

variable {A : Algebra} {N : Facts} {fs : List Facts} {q c : ℚ}

theorem conclude_eq_none {js : List Judgement} (h : ∀ j ∈ js, j.judge .none = none) :
    conclude js = .none := by
  have hall : tryAll js .none = .none := by
    unfold tryAll
    induction js with
    | nil => rfl
    | cons j js ih =>
      rw [foldl_cons, h j mem_cons_self]
      simpa using ih fun k hk => h k (mem_cons_of_mem _ hk)
  simp [conclude, settle, hall]

@[simp] theorem get_none (p : Fact) : Facts.none.get p = none := by simp [Facts.get, Facts.none]

@[simp] theorem is_none (p : Fact) : Facts.none.is p = false := by simp [Facts.is, Facts.none]

@[simp] theorem fails_none (p : Fact) : Facts.none.fails p = false := by
  simp [Facts.fails, Facts.none]

/-- What can be known of a number that is not zero. -/
def numeric : List Facts :=
  .none :: [Fact.positive, .negative].flatMap fun s =>
    .ofList [(.rational, true), (.integer, false), (s, true)] ::
      [true, false].map fun b => .ofList [(.integer, true), (.even, b), (s, true)]

theorem facts_rat_mem (h : q ≠ 0) : Number.facts (.rat q) ∈ numeric := by
  have hsign : ∀ s ∈ [Fact.positive, .negative], (if q.den = 1 then
      Facts.ofList [(.integer, true), (.even, q.num % 2 == 0), (s, true)] else
      .ofList [(.rational, true), (.integer, false), (s, true)]) ∈ numeric := by
    intro s hs
    rw [numeric, mem_cons, mem_flatMap]
    refine .inr ⟨s, hs, ?_⟩
    split
    · cases q.num % 2 == 0 <;> simp
    · exact mem_cons_self
  by_cases hpos : 0 < q
  · have := hsign .positive mem_cons_self
    simpa only [Number.facts, if_neg h, if_pos hpos] using this
  · have := hsign .negative (mem_cons_of_mem _ mem_cons_self)
    simpa only [Number.facts, if_neg h, if_neg hpos] using this

/-- Products of a number and something of which nothing is known. -/
theorem product_open : ∀ N ∈ numeric, productComplex [N, .none] = none ∧
    productFinite [N, .none] = none ∧ productInfinite [N, .none] = none ∧
    group [N.get .rational, Facts.none.get .rational] = none ∧
    group [N.get .algebraic, Facts.none.get .algebraic] = none ∧
    productZero [N, .none] = none ∧ productReal [N, .none] true = none ∧
    productSign [N, .none] true = none ∧ productSign [N, .none] false = none := by
  decide +kernel

theorem irrational_open : ∀ N ∈ numeric, (match [N, .none].find? fun f =>
      f.get .irrational != some false with
      | some f =>
        given (f.is .irrational && ([N, .none].filter fun g =>
          !(g.is .rational && g.fails .zero)).length = 1) true
      | none => given ([N, .none].all (·.is .real)) false) = none := by
  decide +kernel

/-- A product of a number and a symbol is no known multiple. -/
theorem facts_mul_eq_none {ts : Exprs} (hN : N ∈ numeric) (hfs : ts.map A.facts = [N, .none])
    (hint : productInteger A ts [N, .none] = none) : factsOf A (.mul ts) = .none := by
  obtain ⟨hcomplex, hfinite, hinfinite, hrational, halgebraic, hzero, hreal, hpos, hneg⟩ :=
    product_open N hN
  have hirr := irrational_open N hN
  have hfacts : factsOf A (.mul ts) = conclude (ofProduct A ts [N, .none]) := by
    rw [← hfs]
    rfl
  rw [hfacts]
  refine conclude_eq_none fun j hj => ?_
  simp only [ofProduct, mem_cons, not_mem_nil, or_false] at hj
  rcases hj with rfl | rfl | rfl | rfl | rfl | rfl | rfl | rfl | rfl | rfl | rfl | rfl | rfl | rfl
  · exact hcomplex
  · exact hfinite
  · exact hinfinite
  · simp only [map_cons, map_nil, hrational]
    rfl
  · simp only [map_cons, map_nil, halgebraic]
    rfl
  · exact hzero
  · exact hint
  · exact hreal
  · simp
  · exact hirr
  · exact hpos
  · exact hneg
  · simp [productOdd]
  · simp

/-- Nothing is known of a sum if nothing is known of one of its terms. -/
theorem group_eq_none {xs : List (Option Bool)} (h : none ∈ xs) : group xs = none := by
  have hany : xs.any (·.isNone) = true := any_eq_true.2 ⟨none, h, rfl⟩
  simp [group, hany]

theorem sumSign_eq_none (hfs : ∀ f ∈ fs, f ∈ numeric) (h : .none ∈ fs) (up : Bool) :
    sumSign fs up = none := by
  have hsign : ∀ N ∈ numeric, N.is .zero = false ∧ N.is .infinite = false := by decide +kernel
  have hzero : fs.filter (!·.is .zero) = fs := filter_eq_self.2 fun f hf => by
    simp [(hsign f (hfs f hf)).1]
  have hinf : fs.filter (·.is .infinite) = [] := filter_eq_nil_iff.2 fun f hf => by
    simp [(hsign f (hfs f hf)).2]
  have hempty : fs.isEmpty = false := by cases fs <;> simp_all
  have hany : fs.any (fun f => !(f.is (signFact up) || f.is (weakFact up) ||
      f.is (weakFact (!up)))) = true := any_eq_true.2 ⟨_, h, by simp⟩
  simp only [sumSign, hzero, hempty, hinf, hany]
  rfl

theorem sumIrrational_eq_none (hfs : ∀ f ∈ fs, f ∈ numeric) (h : .none ∈ fs) :
    sumIrrational fs = none := by
  have hopen : ∀ N ∈ numeric, N.get .irrational ≠ some false → N.is .irrational = false := by
    decide +kernel
  cases hfind : fs.find? fun f => f.get .irrational != some false with
  | none => simpa using find?_eq_none.1 hfind _ h
  | some f =>
    have hf := hopen f (hfs f (mem_of_find?_eq_some hfind)) (by simpa using find?_some hfind)
    simp [sumIrrational, hfind, hf, given]

end Judgement

/-! ### Terms -/

namespace Form

def IsTerm (t : Expr) : Prop := ∃ c x, c ≠ 0 ∧ t = term c x

def Symbolic (t : Expr) : Prop := ∃ c s, c ≠ 0 ∧ t = term c (some s)

/-- Terms that are not all numbers. -/
structure Mixed (ts : Exprs) : Prop where
  terms : ∀ t ∈ ts, IsTerm t
  symbolic : ∃ t ∈ ts, Symbolic t

theorem IsTerm.cases {t : Expr} (h : IsTerm t) : (∃ q, q ≠ 0 ∧ t = .rat q) ∨ Symbolic t := by
  obtain ⟨c, _ | s, hc, rfl⟩ := h
  · exact .inl ⟨c, hc, rfl⟩
  · exact .inr ⟨c, s, hc, rfl⟩

theorem Symbolic.isNumber {t : Expr} (h : Symbolic t) : t.isNumber = false := by
  obtain ⟨c, s, -, rfl⟩ := h
  rw [term]
  split <;> rfl

end Form

/-- Nothing is known of a linear form that is not a number. -/
structure Algebra.Open (A : Algebra) : Prop where
  facts : ∀ {ts}, Mixed ts → A.facts (.addOf ts) = .none
  numbers : ∀ {q}, q ≠ 0 → A.facts (.rat q) ∈ Judgement.numeric
  parts : ∀ {m : ℤ} (k : ℤ) (s : String), m ≠ 0 → A.facts (A.mul [.int m, .symbol s]) = .none ∧
    (A.mul [.int m, .symbol s] == A.mul [.int k, .one]) = false

namespace Algebra.Open

variable {A : Algebra} {ts : Exprs} {t : Expr} (hA : A.Open)

include hA

theorem facts_symbolic (h : Symbolic t) : A.facts t = .none := by
  obtain ⟨c, s, hc, rfl⟩ := h
  have hmixed : Mixed [term c (some s)] :=
    ⟨by simpa using ⟨c, _, hc, rfl⟩, _, mem_cons_self, c, s, hc, rfl⟩
  exact hA.facts hmixed

theorem facts_mem (h : IsTerm t) : A.facts t ∈ Judgement.numeric := by
  rcases h.cases with ⟨q, hq, rfl⟩ | h
  · exact hA.numbers hq
  · rw [hA.facts_symbolic h]
    exact mem_cons_self

theorem shifted_eq_none {c : Number} (h : Mixed ts) (strict up : Bool) :
    Judgement.shifted A c (.addOf ts) strict up = none := by
  simp [Judgement.shifted, Algebra.is, hA.facts h]

/-- Taking the number of a sum apart leaves a form of which nothing is known. -/
theorem shifted_coeffAdd (h : Mixed ts) (strict up : Bool) : Judgement.shifted A
    (Expr.add ts).coeffAdd.1 (Expr.add ts).coeffAdd.2 strict up = none := by
  have hzero : ∀ a, Judgement.shifted A .zero a strict up = none := fun a => by
    simp [Judgement.shifted, Number.zero, Number.isZero]
  rcases ts with _ | ⟨t, ts⟩
  · exact hzero _
  · obtain ⟨q, -, rfl⟩ | ht := (h.terms t mem_cons_self).cases
    · refine hA.shifted_eq_none ⟨fun u hu => h.terms u (mem_cons_of_mem _ hu), ?_⟩ strict up
      obtain ⟨u, hu, hs⟩ := h.symbolic
      rcases mem_cons.1 hu with rfl | hu
      · exact absurd hs.isNumber (by simp [Expr.rat, Expr.isNumber])
      · exact ⟨u, hu, hs⟩
    · obtain ⟨c, s, -, rfl⟩ := ht
      rw [term]
      split <;> exact hzero _

theorem sumOdd_eq_none (h : Mixed ts) : Judgement.sumOdd A ts (ts.map A.facts) = none := by
  have hzip : (ts.zip (ts.map A.facts)).filter (fun p => !p.2.is .even) =
      (ts.filter fun t => !(A.facts t).is .even).map fun t => (t, A.facts t) := by
    rw [← map_id ts, map_map, zip_map', map_id, filter_map]
    simp [Function.comp_def]
  obtain ⟨u, hu, hs⟩ := h.symbolic
  have hmem : u ∈ ts.filter fun t => !(A.facts t).is .even := by
    simp [hu, hA.facts_symbolic hs]
  have hsub : ∀ t ∈ ts.filter fun t => !(A.facts t).is .even, IsTerm t := fun t ht =>
    h.terms t (mem_of_mem_filter ht)
  generalize ts.filter (fun t => !(A.facts t).is .even) = rs at hzip hmem hsub
  unfold Judgement.sumOdd
  split
  · next hnil =>
    obtain rfl := map_eq_nil_iff.1 (hzip.symm.trans hnil)
    cases hmem
  · next t f r hcons =>
    obtain ⟨t', rs', rfl, ht, rfl⟩ := map_eq_cons_iff.1 (hzip.symm.trans hcons)
    obtain ⟨rfl, rfl⟩ := Prod.mk.inj ht
    simp only [map_map, Function.comp_def, map_id']
    split
    · next hodd =>
      have hne : u ≠ t' := by
        rintro rfl
        simp [hA.facts_symbolic hs] at hodd
      have hr : Mixed rs' := ⟨fun t ht => hsub t (mem_cons_of_mem _ ht), u,
        (mem_cons.1 hmem).resolve_left hne, hs⟩
      rw [Algebra.ask, hA.facts hr, Judgement.get_none]
    · rfl

theorem facts_add (h : Mixed ts) : A.next.facts (.add ts) = .none := by
  obtain ⟨t, ht, hs⟩ := h.symbolic
  have hnone : Facts.none ∈ ts.map A.facts := mem_map.2 ⟨t, ht, hA.facts_symbolic hs⟩
  have hgroup : ∀ p, Judgement.group ((ts.map A.facts).map (·.get p)) = none := fun p =>
    Judgement.group_eq_none (mem_map.2 ⟨_, hnone, Judgement.get_none p⟩)
  have hinf : Judgement.sumInfinite (ts.map A.facts) = none := by
    have hany : (ts.map A.facts).any (fun f => (f.get .infinite).isNone) = true :=
      any_eq_true.2 ⟨_, hnone, by simp⟩
    simp only [Judgement.sumInfinite, hany, if_true]
  have hsplit : ∀ judge, Judgement.sumSplit ts (ts.map A.facts) judge = none := by
    intro judge
    have hall : (ts.map A.facts).all (fun f => f.is .extReal && (f.get .zero).isSome ||
        f.is .imaginary) = false := all_eq_false.2 ⟨_, hnone, by simp⟩
    simp only [Judgement.sumSplit, hall]
    rfl
  have hmem : ∀ f ∈ ts.map A.facts, f ∈ Judgement.numeric := by
    simpa using fun t ht => hA.facts_mem (h.terms t ht)
  have hnum : (Expr.add ts).isNumber = false := Judgement.isNumber_eq_false ht hs.isNumber
  have hsign := Judgement.sumSign_eq_none hmem hnone
  have hstrict : ∀ up s, Judgement.sumStrict A ts (ts.map A.facts) up s = none := by
    intro up s
    simp [Judgement.sumStrict, hnum, hA.shifted_coeffAdd h, hsign]
  have hweak : ∀ up, Judgement.sumWeak A ts up = none := by
    intro up
    simp [Judgement.sumWeak, hnum, hA.shifted_coeffAdd h]
  refine Judgement.conclude_eq_none fun j hj => ?_
  simp only [Judgement.ofSum, mem_cons, not_mem_nil, or_false] at hj
  rcases hj with rfl | rfl | rfl | rfl | rfl | rfl | rfl | rfl | rfl | rfl | rfl | rfl | rfl | rfl |
    rfl | rfl
  iterate 7 exact hgroup _
  · exact hinf
  · simp only [Judgement.sumZero, hsplit]
  · simp only [Judgement.sumImaginary, hsplit]
  · exact hA.sumOdd_eq_none h
  · exact Judgement.sumIrrational_eq_none hmem hnone
  · exact hstrict _ _
  · exact hstrict _ _
  · exact hweak _
  · exact hweak _

theorem productInteger_eq_none {c : ℚ} {s : String} (hc : c ≠ 0) :
    Judgement.productInteger A [.rat c, .symbol s] [A.facts (.rat c), .none] = none := by
  obtain ⟨hn, hnd⟩ := hA.parts (m := c.num) c.den s (Rat.num_ne_zero.2 hc)
  have hgroup : Judgement.group [(A.facts (.rat c)).get .rational, none] = none :=
    Judgement.group_eq_none (by simp)
  have hparts : Judgement.productParts A [.rat c, .symbol s] =
      (A.mul [.int c.num, .symbol s], A.mul [.int c.den, .one]) := rfl
  simp [Judgement.productInteger, hparts, hgroup, hnd, Algebra.is, Algebra.ask, hn, given]

theorem facts_next (h : Mixed ts) : A.next.facts (.addOf ts) = .none := by
  rcases ts with _ | ⟨t, _ | ⟨u, ts⟩⟩
  · obtain ⟨t, ht, -⟩ := h.symbolic
    cases ht
  · obtain ⟨u, hu, c, s, hc, rfl⟩ := h.symbolic
    obtain rfl := mem_singleton.1 hu
    have hsym : A.facts (.symbol s) = .none :=
      hA.facts_symbolic ⟨1, s, one_ne_zero, by simp [term]⟩
    change A.next.facts (term c (some s)) = .none
    rw [term]
    split
    · rfl
    · exact Judgement.facts_mul_eq_none (hA.numbers hc) (by simp [hsym])
        (hA.productInteger_eq_none hc)
  · exact hA.facts_add h

end Algebra.Open

theorem Algebra.open_bare : Algebra.bare.Open where
  facts _ := rfl
  numbers _ := mem_cons_self
  parts k s _ := by
    refine ⟨rfl, Bool.eq_false_iff.2 fun h => ?_⟩
    have hlist := sameList_iff_forall₂.1 (same_node_iff.1 h).2
    cases hlist with
    | cons _ htail =>
      cases htail with
      | cons hsame _ => cases hsame

end StencilForge
