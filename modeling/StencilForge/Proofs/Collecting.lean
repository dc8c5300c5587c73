import StencilForge.Expr.Standard
import Mathlib

/-!
# Proofs — sums of a symbol and integers

An algebra that collects has one form for a sum of one symbol and integers (`Expr.plus`,
`Expr.minus`), so that distances that are equal are built alike (`Algebra.Collects`).  The standard
algebra does (`Algebra.standard_collects`): of any sum it keeps one number and one coefficient for
each term.
-/

open StencilForge.Expr List

namespace StencilForge

open Product

namespace Number

@[simp] theorem add_rat (p q : Rat) : add (.rat p) (.rat q) = .rat (p + q) := rfl

@[simp] theorem mul_rat (p q : Rat) : mul (.rat p) (.rat q) = .rat (p * q) := rfl

end Number

namespace Expr

@[simp] theorem sorted_singleton (e : Expr) : sorted [e] = [e] := by simp [sorted]

/-- A symbol plus an integer, as sums are kept. -/
def plus (s : Symbol) (n : Int) : Expr := if n = 0 then .sym s else .add [.int n, .sym s]

def minus (s : Symbol) (n : Int) : Expr := if n = 0 then .mul [.negOne, .sym s] else .add
    [.int n, .mul [.negOne, .sym s]]

theorem isZero_int (n : Int) : (int n).isZero = decide (n = 0) := by
  rw [Bool.eq_iff_iff]
  simp [int, isZero, Number.zero]

theorem isOne_int (n : Int) : (int n).isOne = decide (n = 1) := by
  rw [Bool.eq_iff_iff]
  simp [int, isOne, Number.isOne]

theorem isZero_plus (s : Symbol) (n : Int) : (plus s n).isZero = false := by
  unfold plus
  split <;> rfl

theorem isZero_minus (s : Symbol) (n : Int) : (minus s n).isZero = false := by
  unfold minus
  split <;> rfl

end Expr

/-! ### Sums -/

namespace Sum

variable {A : Algebra} {s : Symbol} {a : Int} {ts : Table Expr Number}

def collect (A : Algebra) (c : Collected) (e : Expr) :
    Collected := ((flatTerms e).flatMap (settle A)).foldl Collected.take c

theorem collect_int (n : Int) : collect A ⟨some (.ofInt a), ts, false⟩
    (.int n) = ⟨some (.ofInt (a + n)), ts, false⟩ := by
  simp [collect, int, flatTerms, settle, Collected.take, Number.ofInt]

theorem collect_plus (n : Int) : collect A ⟨some (.ofInt a), ts, false⟩ (.plus s n) =
    ⟨some (.ofInt (a + n)), Table.alter (.sym s) (fun v => (v.map (·.add .one)).getD .one) ts,
      false⟩ := by
  unfold plus
  split
  · next h => simp [h, collect, flatTerms, settle, Collected.take, coeffMul]
  · simp [collect, int, flatTerms, flatTermsList, settle, Collected.take, Number.ofInt, coeffMul]

theorem collect_minus (n : Int) : collect A ⟨some (.ofInt a), ts, false⟩ (.minus s n) =
    ⟨some (.ofInt (a + n)), Table.alter (.sym s) (fun v => (v.map (·.add .negOne)).getD .negOne) ts,
      false⟩ := by
  unfold minus
  split
  · next h => simp [h, collect, flatTerms, settle, Collected.take, coeffMul, negOne, int, mulOf,
      Number.negOne]
  · simp [collect, int, flatTerms, flatTermsList, settle, Collected.take, Number.ofInt, coeffMul,
      negOne, mulOf, Number.negOne]

theorem collected_pair (x y : Expr) : ((flatTermsList [x, y]).flatMap (settle A)).foldl
    Collected.take {} =
    collect A (collect A ⟨some (.ofInt 0), [], false⟩ x) y := by
  simp only [flatTermsList, flatMap_append, foldl_append]
  rfl

/-- The terms that are left are sorted, behind the number. -/
theorem build_terms {x y : Expr} (hx : x.isZero = false) (hy : y.isZero = false) {q : Int}
    (ps : List (Expr × Int))
    (h : collect A (collect A ⟨some (.ofInt 0), [], false⟩ x) y =
      ⟨some (.ofInt q), ps.map fun p => (p.1, .ofInt p.2), false⟩) :
    build A [x, y] = addOf ((if q = 0 then [] else [.int q]) ++ sorted
      (ps.filterMap fun p => scaled A p.1 (.ofInt p.2))) := by
  have hfilter : [x, y].filter (!·.isZero) = [x, y] := by simp [hx, hy]
  have hsurvive : ∀ ts es, survive A ⟨some (.ofInt q), ts, false⟩ es = es := fun _ _ => rfl
  simp only [build, hfilter, collected_pair, h, filterMap_map, Function.comp_def]
  rw [hsurvive]
  by_cases hq : q = 0 <;> simp [hq, Number.zero, Number.ofInt, int]

theorem build_pair {x y : Expr} (hx : x.isZero = false) (hy : y.isZero = false) {q k : Int}
    (h : collect A (collect A ⟨some (.ofInt 0), [], false⟩ x) y =
      ⟨some (.ofInt q), [(.sym s, .ofInt k)], false⟩) :
    build A [x, y] = addOf ((if q = 0 then [] else [.int q]) ++
      (scaled A (.sym s) (.ofInt k)).toList) := by
  rw [build_terms hx hy [(.sym s, k)] h]
  cases hs : scaled A (.sym s) (.ofInt k) <;> simp [hs, sorted]

end Sum

/-! ### Products -/

namespace Product

variable {A : Algebra} {p : ℚ} {b : Expr} {l r : List ℚ}

theorem assemble_nil (p : Rat) : assemble A (some (.rat p)) [] = .num (.rat p) := by
  unfold assemble
  by_cases h0 : p = 0
  · simp [Number.isZero, h0]
  · by_cases h1 : p = 1
    · simp [h1, sorted, mulOf, one, int]
    · simp [Number.isOne, h1, sorted, mulOf]

theorem assemble_sym {p : Rat} (h0 : p ≠ 0) (h1 : p ≠ 1) (s : Symbol) :
    assemble A (some (.rat p)) [.sym s] = .mul [.num (.rat p), .sym s] := by
  unfold assemble
  simp [Number.isZero, Number.isOne, h0, h1, isNum, mulOf]

/-- A product without roots: a number, and powers of symbols. -/
theorem combine_eq {es : Exprs} (p : Rat) (ps : List (Expr × Expr)) {t : Turned}
    (hc : ((flatFactorsList es).flatMap (settle A)).foldl (Collected.take A) {} =
      { number := some (.rat p), powers := ps })
    (ht : turn A (some (.rat p)) (gather A ps) = t) (hn : t.number = some (.rat p))
    (hb : t.broken = false) :
    combine A es = assemble A (some (.rat p)) t.factors := by
  subst ht
  have hg : gather A [] = [] := rfl
  simp only [combine, hc, hb, hn, hg, joinRoots, settleRoots, settleTurns, survive, foldl_nil]
  simp [Number.one, Number.isInfinite]

/-- What is left of a product when its numbers are multiplied. -/
inductive IsBase : Expr → Prop where
  | symbol (s : Symbol) : IsBase (.sym s)
  | sum (ts : Exprs) : IsBase (.add ts)

theorem turn_base (hb : IsBase b) : turn A.next (some (.rat p)) [(b, .one)] =
    { number := some (.rat p), factors := [b], powers := [(b, .one)] } := by
  have hfacts : A.next.facts .one = Number.facts (.rat (1 : Int)) := by
    simp only [Algebra.next, one, int, Judgement.factsOf]
  have hz : A.next.is .zero .one = false := by
    rw [Algebra.is, hfacts]
    decide +kernel
  cases hb <;> simp only [turn, foldl_cons, Turned.take, hz] <;> rfl

theorem foldl_take_rats (qs : List ℚ) (c : Collected) (hn : c.number = some (.rat p)) :
    (qs.map Expr.rat).foldl (Collected.take A) c =
    { c with number := some (.rat (p * qs.prod)) } := by
  induction qs generalizing c p with
  | nil =>
    obtain ⟨n, ps, ns, rs, t, br⟩ := c
    obtain rfl : n = some (.rat p) := hn
    simp
  | cons q qs ih =>
    have hone : Collected.take A c (.rat q) = { c with number := some (.rat (p * q)) } := by
      simp [Collected.take, Expr.rat, Collected.scale, hn]
    rw [map_cons, foldl_cons, hone, ih { c with number := some (.rat (p * q)) } rfl, prod_cons,
      mul_assoc]

theorem flatMap_settle_rats (qs : List ℚ) : (qs.map Expr.rat).flatMap (settle A) = qs.map .rat := by
  rw [flatMap_map]
  exact map_eq_flatMap.symm

theorem flatFactorsList_append (es fs : Exprs) :
    flatFactorsList (es ++ fs) = flatFactorsList es ++ flatFactorsList fs := by
  induction es with
  | nil => rfl
  | cons e es ih => rw [cons_append, flatFactorsList, ih, flatFactorsList, append_assoc]

theorem flatFactorsList_rats (qs : List ℚ) : flatFactorsList (qs.map .rat) = qs.map .rat := by
  induction qs with
  | nil => rfl
  | cons q qs ih =>
    rw [map_cons, flatFactorsList, ih]
    rfl

theorem combine_rats (qs : List ℚ) : combine A (qs.map .rat) = .rat qs.prod := by
  rw [combine_eq qs.prod [] ?_ rfl rfl rfl]
  · exact assemble_nil _
  · rw [flatFactorsList_rats, flatMap_settle_rats, foldl_take_rats qs _ rfl, one_mul]

/-- Numbers are multiplied, and what is left stands behind them. -/
theorem combine_base {es : Exprs} (hb : IsBase b)
    (hes : flatFactorsList es = l.map .rat ++ b :: r.map .rat) :
    combine A.next es = assemble A.next (some (.rat (l.prod * r.prod))) [b] := by
  have hg : gather A.next [(b, .one)] = [(b, .one)] := rfl
  rw [combine_eq (l.prod * r.prod) [(b, .one)] ?_ (by rw [hg, turn_base hb]) rfl rfl]
  have hsettle : settle A.next b = [b] := by cases hb <;> rfl
  have htake : ∀ c, Collected.take A.next c b = { c with powers := c.powers ++ [(b, .one)] } := by
    intro c
    cases hb <;> rfl
  rw [hes, flatMap_append, flatMap_cons, flatMap_settle_rats, flatMap_settle_rats, hsettle,
    foldl_append, foldl_take_rats l _ rfl, singleton_append, foldl_cons, htake,
    foldl_take_rats r _ rfl, one_mul]
  rfl

theorem isOne_rat (q : ℚ) : (Expr.rat q).isOne = decide (q = 1) := by
  rw [Bool.eq_iff_iff]
  simp [Expr.rat, isOne, Number.isOne]

theorem filter_isOne_rats (qs : List ℚ) : (qs.map Expr.rat).filter (!·.isOne) =
    (qs.filter (· ≠ 1)).map .rat := by
  rw [filter_map]
  congr 1
  refine filter_congr fun q _ => ?_
  simp [isOne_rat]

theorem prod_filter_ne_one (qs : List ℚ) : (qs.filter (· ≠ 1)).prod = qs.prod := by
  induction qs with
  | nil => rfl
  | cons q qs ih =>
    by_cases hq : q = 1
    · simp [hq, ← ih]
    · simp [hq, ← ih]

theorem build_rats (qs : List ℚ) : build A (qs.map .rat) = .rat qs.prod := by
  have hshort : ∀ q a : ℚ, short A q (.rat a) = none := by
    intro q a
    unfold short
    by_cases ha : a = 0 <;> simp [ha, Expr.rat, coeffMul, Number.isZero, one, int]
  rw [← prod_filter_ne_one, build, filter_isOne_rats]
  generalize qs.filter (· ≠ 1) = rs
  rcases rs with _ | ⟨a, _ | ⟨b, _ | ⟨c, rs⟩⟩⟩
  · simp [one, int, Expr.rat]
  · simp
  · have hcombine := combine_rats (A := A) [a, b]
    have hquick := hshort b a
    simp only [map_cons, map_nil, Expr.rat] at hquick hcombine ⊢
    simp only [hquick, hcombine]
  · exact combine_rats (a :: b :: c :: rs)

end Product

/-! ### The standard algebra -/

namespace Algebra

variable (A : Algebra) (s : Symbol)

theorem mul_ints (m n : Int) : A.next.mul [.int m, .int n] = .int (m * n) := by
  have h := build_rats (A := A) [(m : ℚ), n]
  rw [prod_pair, ← Int.cast_mul] at h
  exact h

theorem add_ints (m n : Int) : A.next.add [.int m, .int n] = .int (m + n) := by
  change Sum.build A _ = _
  by_cases hm : m = 0
  · by_cases hn : n = 0 <;> simp [Sum.build, hm, hn, isZero_int, zero]
  by_cases hn : n = 0
  · simp [Sum.build, hm, hn, isZero_int]
  have hfilter : [int m, .int n].filter (!·.isZero) = [.int m, .int n] :=
    by simp [isZero_int, hm, hn]
  have hsurvive : ∀ c, Sum.survive A c [] = [] := fun c => by unfold Sum.survive; split <;> rfl
  simp only [Sum.build, hfilter, Sum.collected_pair, Sum.collect_int, zero_add, filterMap_nil,
    hsurvive]
  by_cases h : Number.ofInt (m + n) = .zero
  · simp only [h, any_nil, Bool.or_false, Bool.false_eq_true, if_false, beq_self_eq_true, if_true,
      sorted, mergeSort_nil, addOf]
    exact congrArg num h.symm
  · simp [h, sorted, addOf]
    rfl

theorem neg_int (n : Int) : A.next.neg (.int n) = .int (-n) := (A.mul_ints (-1) n).trans
    (by rw [neg_one_mul])

theorem neg_sym : A.next.next.neg (.sym s) = .mul [.negOne, .sym s] := by
  change build A.next [.negOne, .sym s] = _
  have hbuild : build A.next [.negOne, .sym s] = combine A.next [.negOne, .sym s] := rfl
  rw [hbuild, combine_base (.symbol s) (l := [-1]) (r := []) rfl, prod_singleton, prod_nil, mul_one,
    assemble_sym (by decide) (by decide)]
  rfl

theorem neg_plus (n : Int) : A.next.next.next.neg (.plus s n) = .minus s (-n) := by
  unfold plus minus
  by_cases hn : n = 0
  · rw [if_pos hn, if_pos (by omega), neg_sym]
  · rw [if_neg hn, if_neg (by omega)]
    have hkeep : A.next.next.keepCoeff (.rat (-1)) (.sym s) = .mul [.negOne, .sym s] := neg_sym A s
    have hshort : short A.next.next (-1) (.add [.int n, .sym s]) =
      some (.add [.int (-n), .mul [.negOne, .sym s]]) := by
      simp [short, coeffMul, Number.one, hkeep, int, Number.isZero, addOf, hn]
      decide
    have hfilter : [negOne, .add [.int n, .sym s]].filter (!·.isOne) =
      [negOne, .add [.int n, .sym s]] := rfl
    change build A.next.next [.negOne, .add [.int n, .sym s]] = _
    unfold build
    rw [hfilter]
    have hone : negOne = .num (.rat (-1)) := rfl
    simp only [hone] at hshort ⊢
    simp only [hshort]

theorem scaled_negOne : Sum.scaled A.next.next (.sym s)
    (.ofInt (-1)) = some (.mul [.negOne, .sym s]) := by
  have hmul : A.next.next.mul [.num (.ofInt (-1)), .sym s] = .mul [.negOne, .sym s] := neg_sym A s
  have hzero : (Number.ofInt (-1)).isZero = false := by decide
  have hone : (Number.ofInt (-1)).isOne = false := by decide
  simp [Sum.scaled, hzero, hone, hmul]

theorem plus_add (m n : Int) : A.next.add [.plus s m, .int n] = .plus s (m + n) := by
  change Sum.build A _ = _
  by_cases hn : n = 0
  · simp [Sum.build, isZero_plus, isZero_int, hn]
  · rw [Sum.build_pair (isZero_plus s m) (by simpa [isZero_int] using hn)
      (by rw [Sum.collect_plus, Sum.collect_int]; rfl),
      zero_add, plus]
    split <;> rfl

theorem add_minus (m n : Int) : A.next.next.next.add [.int m, .minus s n] = .minus s (m + n) := by
  change Sum.build A.next.next _ = _
  by_cases hm : m = 0
  · simp [Sum.build, isZero_minus, isZero_int, hm]
  · rw [Sum.build_pair (k := -1) (by simpa [isZero_int] using hm) (isZero_minus s n)
      (by rw [Sum.collect_int, Sum.collect_minus]; rfl),
      scaled_negOne, zero_add, minus]
    split <;> rfl

theorem plus_add_minus (m n : Int) : A.next.add [.plus s m, .minus s n] = .int (m + n) := by
  have hself : (sym s == sym s) = true := by simp [BEq.beq, same]
  have hzero : Sum.scaled A (.sym s) (.ofInt 0) = none :=
    by simp [Sum.scaled, Number.ofInt, Number.isZero]
  change Sum.build A _ = _
  rw [Sum.build_pair (s := s) (q := 0 + m + n) (k := 0) (isZero_plus s m) (isZero_minus s n)
    (by
      rw [Sum.collect_plus, Sum.collect_minus]
      simp [Table.alter, hself, Number.one, Number.negOne, Number.ofInt]), zero_add]
  split
  · next h => rw [h]; rfl
  · rfl

/-- Sums of a symbol and integers are collected. -/
structure Collects (A : Algebra) : Prop where
  add : ∀ s n, A.add [.sym s, .int n] = .plus s n
  plusSub : ∀ s m n, A.sub (.plus s m) (.int n) = .plus s (m - n)
  subPlus : ∀ s m n, A.sub (.int m) (.plus s n) = .minus s (m - n)
  plusPlus : ∀ s m n, A.sub (.plus s m) (.plus s n) = .int (m - n)

theorem collects_next : A.next.next.next.Collects where
  add s n := (plus_add A.next.next s 0 n).trans (by rw [zero_add])
  plusSub s m n := by rw [sub, neg_int, plus_add, sub_eq_add_neg]
  subPlus s m n := by rw [sub, neg_plus, add_minus, sub_eq_add_neg]
  plusPlus s m n := by rw [sub, neg_plus, plus_add_minus, sub_eq_add_neg]

theorem standard_collects : standard.Collects := collects_next (level 147)

end Algebra
end StencilForge
