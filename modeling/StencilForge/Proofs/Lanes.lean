import StencilForge.Proofs.Cutting

/-!
# Proofs — steps of a vector's width

A loop over vectors makes steps of their width.  A bound in which no array is read stays when
elements are replaced (`Substitute.replaceBound_eq_self`), the lanes of all rounds are the cells
between bounds that are whole vectors apart (`Vector.flatMap_lanes`), and these and the cells behind
are the rounds of the loop before, in order (`Vector.covers_innermostLoop`).  A constant range has
to be one cell, whole vectors, or longer than a vector: a shorter one is taken for the loop over
vectors itself (`Vector.innermostLoop_passes_stop`).
-/

open StencilForge.Outcome
open List hiding range mem_range

namespace StencilForge

open Expr Substitute Model IntegerFunction Statement
variable {e e' n : Expr} {a b m : Int} {t : Table Expr Expr}

/-! ### Elements that do not occur -/

namespace Substitute

variable {A : Algebra} {H : Head → Prop} {old new : Expr}

inductive IsElement : Expr → Prop where
  | element (as : Exprs) : IsElement (.node .element as)
  | resolved (f : GridField) (n : Nat) (as : Exprs) : IsElement (.node (.resolved f n) as)

/-- Operations that neither read an array nor choose. -/
structure Simple (H : Head → Prop) : Prop where
  operation : ∀ {h}, H h → isOperation h = true
  element : ¬ H .element
  piecewise : ¬ H .piecewise

theorem beq_element (hH : Simple H) (hold : IsElement old) (he : Over H IsSymbol e) :
    (e == old) = false ∧ (old == e) = false := by
  have hhead : ∀ {h : Head}, H h → ∀ k, (k = .element ∨ ∃ f n, k = .resolved f n) →
    sameHead h k = false ∧ sameHead k h = false := by
    rintro h hh k (rfl | ⟨f, n, rfl⟩)
    · have hne : h ≠ .element := fun h' => hH.element (h' ▸ hh)
      cases h <;> simp_all [sameHead]
    · have hop := hH.operation hh
      cases h <;> simp_all [sameHead, isOperation]
  obtain ⟨k, bs, rfl, hk⟩ : ∃ k bs, old = .node k bs ∧
    (k = .element ∨ ∃ f n, k = .resolved f n) := by
    cases hold with
    | element as => exact ⟨_, as, rfl, .inl rfl⟩
    | resolved f n as => exact ⟨_, as, rfl, .inr ⟨f, n, rfl⟩⟩
  change same _ _ = false ∧ same _ _ = false
  cases he with
  | leaf _ hp =>
    obtain ⟨s, rfl⟩ := hp
    exact ⟨same_atom_node .., same_node_atom ..⟩
  | atom _ => exact ⟨same_atom_node .., same_node_atom ..⟩
  | node hh _ =>
    obtain ⟨hleft, hright⟩ := hhead hh k hk
    simp [same, hleft, hright]

theorem inPower_element (hH : Simple H) (hold : IsElement old) {sub : Expr → Outcome Expr}
    {b y : Expr} {r : Option Expr}
    (hb : Over H IsSymbol b) (h : inPower A sub b y old new = .ok r) : r = none := by
  unfold inPower at h
  rw [if_neg (by simp [(beq_element hH hold hb).2])] at h
  cases hold with
  | element as => exact (pure_eq_ok.1 h).symm
  | resolved f n as => exact (pure_eq_ok.1 h).symm

theorem algebraicDeep_eq_self (hH : Simple H) (hold : IsElement old) {fuel : Nat}
    (he : Over H IsSymbol e)
    (hr : algebraicDeep A fuel old new e = .ok e') : e' = e := by
  induction fuel using Nat.strongRecOn generalizing e e' with
  | _ fuel ih =>
  obtain _ | fuel := fuel
  · exact (Except.ok.inj hr).symm
  have hlist : ∀ {as bs : Exprs} {k : Nat}, k ≤ fuel → (∀ a ∈ as, Over H IsSymbol a) →
      algebraicList A k old new as = .ok bs → bs = as := by
    intro as
    induction as with
    | nil =>
      intro bs k _ _ h
      cases k <;> exact (Except.ok.inj h).symm
    | cons a as ihas =>
      intro bs k hk has h
      obtain _ | k := k
      · exact (Except.ok.inj h).symm
      simp only [algebraicList, bind_eq_ok, pure_eq_ok] at h
      obtain ⟨b, hb, cs, hcs, rfl⟩ := h
      obtain rfl := ih k (by omega) (has a mem_cons_self) hb
      obtain rfl := ihas (by omega) (fun x hx => has x (mem_cons_of_mem _ hx)) hcs
      rfl
  have hne := (beq_element hH hold he).1
  cases he with
  | leaf _ hp =>
    obtain ⟨s, rfl⟩ := hp
    unfold algebraicDeep at hr
    rw [if_neg (by simp [hne])] at hr
    exact (pure_eq_ok.1 hr).symm
  | atom _ =>
    unfold algebraicDeep at hr
    rw [if_neg (by simp [hne])] at hr
    exact (pure_eq_ok.1 hr).symm
  | @node h as hh has =>
    have hsum : ∀ os, old ≠ .node .add os := by rintro os rfl; cases hold
    have hprod : ∀ os, old ≠ .node .mul os := by rintro os rfl; cases hold
    obtain ⟨bs, hbs, hb⟩ := algebraicDeep_node (hH.operation hh) hne hsum hprod
      (fun b y r hby hin => by
        obtain ⟨rfl, rfl⟩ := node.inj hby
        exact inPower_element hH hold (has b (by simp)) hin)
      (fun hpiece => hH.piecewise (hpiece ▸ hh)) hr
    obtain rfl := hlist (le_refl _) has hbs
    rwa [if_pos (sameList_iff_forall₂.2 (forall₂_same.2 fun a _ => same_refl a))] at hb

theorem replaceBound_eq_self (hH : Simple H) (ht : ∀ p ∈ t, IsElement p.1)
    (he : Over H IsSymbol e) (hr : replaceBound A t e = .ok e') : e' = e := by
  unfold replaceBound at hr
  split at hr
  · exact (Except.ok.inj hr).symm
  · refine foldlM_induction (P := fun _ x => x = e) hr rfl ?_
    rintro _ ⟨old, new⟩ _ y rfl hxy hp
    change algebraic A old new _ = .ok y at hxy
    unfold algebraic at hxy
    split at hxy
    · exact (Except.ok.inj hxy).symm
    · exact algebraicDeep_eq_self hH (ht _ (mem_arrange.1 hp).1) he hxy

end Substitute

theorem IntegerFunction.rounding_ints {machine : Bool} {f : Fn} {n k : Int}
    (h : roundNumbers machine f (.rat m) (.rat n) = .ok (.rat k)) :
    rounding machine f [.int m, .int n] = .ok (.int k) := by
  simp only [rounding, Expr.int, h]
  rfl

/-! ### Lanes -/

namespace Vector

open Machine

/-- The cells that a round works on. -/
def lanes (w : Nat) (i : Int) : Ints := (List.range w).map fun (k : Nat) => i + k

theorem range_eq_nil {c : Int} (h : b ≤ a) : range a b c = [] := by
  unfold range
  split
  · next hc =>
    have hcount : (b - a + c - 1) / c ≤ 0 := by
      rw [← Int.lt_add_one_iff, Int.ediv_lt_iff_lt_mul hc]
      omega
    rw [Int.toNat_of_nonpos hcount]
    rfl
  · rfl

theorem flatMap_lanes {w : Nat} (hw : 0 < w) (hdvd : (w : Int) ∣ b - a) :
    (range a b w).flatMap (lanes w) = range a b 1 := by
  rcases le_or_gt b a with hba | hab
  · rw [range_eq_nil hba, range_eq_nil hba]
    rfl
  obtain ⟨q, hq⟩ := hdvd
  have hw' : (0 : Int) < w := by exact_mod_cast hw
  obtain ⟨n, rfl⟩ : ∃ n : Nat, q = n := ⟨q.toNat, by
    have : 0 ≤ q := by nlinarith
    omega⟩
  obtain rfl : b = a + w * n := by omega
  have hcount : ((a + w * n - a + w - 1) / w).toNat = n := by
    have : a + w * n - a + w - 1 = (w - 1) + w * n := by ring
    rw [this, Int.add_mul_ediv_left _ _ (by omega), Int.ediv_eq_zero_of_lt (by omega) (by omega)]
    omega
  rw [range, if_pos hw', hcount]
  clear hab hq hcount
  induction n with
  | zero => simp [range]
  | succ n ih =>
    have hstep : a + w * (n + 1 : Nat) = a + w * n + w := by push_cast; ring
    rw [range_succ, map_append, flatMap_append, ih, hstep,
      range_one_eq_append (show a ≤ a + w * n by nlinarith)
        (show a + w * n ≤ a + w * n + w by omega)]
    simp [lanes, range]

/-! ### The elements that become vectors -/

mutual

theorem all_holds (p : Expr → Bool) : ∀ e, ∀ x ∈ Visit.all p e, p x = true
  | .atom a => by
    unfold Visit.all
    split
    · next hp => exact forall_mem_singleton.2 hp
    · exact forall_mem_nil _
  | .node h as => by
    unfold Visit.all
    split <;> split
    · next hp => exact forall_mem_singleton.2 hp
    · exact forall_mem_nil _
    · next hp => exact forall_mem_unionNew (forall_mem_singleton.2 hp) (allList_holds p as)
    · exact allList_holds p as

theorem allList_holds (p : Expr → Bool) : ∀ es, ∀ x ∈ Visit.allList p es, p x = true
  | [] => forall_mem_nil _
  | e :: es => forall_mem_unionNew (all_holds p e) (allList_holds p es)

end

section

variable {P : Expr → Prop} {f : Expr → Exprs} (hf : ∀ e, ∀ x ∈ f e, P x)

include hf

theorem forall_mem_joinNew (es : Exprs) : ∀ x ∈ joinNew (es.map f), P x := fun x h => by
  obtain ⟨xs, hxs, hx⟩ := mem_of_mem_joinNew h
  obtain ⟨e, -, rfl⟩ := mem_map.1 hxs
  exact hf e x hx

mutual

theorem forall_mem_collect : ∀ st : Statement, ∀ x ∈ st.collect f, P x
  | .assign lhs rhs _ => forall_mem_unionNew (forall_mem_unionNew (forall_mem_nil _) (hf lhs))
    (hf rhs)
  | .block _ body => forall_mem_collectList body
  | .loop _ body => forall_mem_unionNew (forall_mem_collectList body) (forall_mem_joinNew hf _)
  | .branch cond yes _ no => forall_mem_unionNew
      (forall_mem_unionNew (forall_mem_unionNew (forall_mem_nil _) (hf cond))
        (forall_mem_collectList yes)) (forall_mem_collectList no)
  | .random _ => forall_mem_joinNew hf _
  | .allocate _ => hf _
  | .skip | .snippet _ | .release _ => forall_mem_nil _

theorem forall_mem_collectList : ∀ body : Body, ∀ x ∈ collectList f body, P x
  | [] => forall_mem_nil _
  | st :: r => forall_mem_unionNew (forall_mem_collect st) (forall_mem_collectList r)

end

end

theorem isElement_of_mem_elements {body : Body} : ∀ e ∈ elements body, IsElement e := by
  refine forall_mem_collectList (fun e x hx => ?_) body
  have hp := all_holds _ e x hx
  split at hp
  · exact .element _
  · exact .resolved _ _ _
  · cases hp

variable {A : Algebra} {w : Nat} {o : Options}

theorem isElement_of_vectorElements {c : Expr} {body : Body}
    (h : vectorElements A w o c body = .ok (some t)) : ∀ p ∈ t, IsElement p.1 := by
  unfold vectorElements at h
  dsimp only at h
  split at h
  · cases h
  · simp only [bind_eq_ok, pure_eq_ok, Option.some.injEq] at h
    obtain ⟨ps, hps, rfl⟩ := h
    rw [mapM_eq_ok] at hps
    intro p hp
    obtain ⟨q, hq, hqp⟩ := exists_of_forall₂ hps hp
    obtain ⟨e, he, rfl⟩ := mem_map.1 hq
    split at hqp
    · obtain rfl := pure_eq_ok.1 hqp
      exact isElement_of_mem_elements _ (mem_filter.1 he).1
    · cases hqp

/-! ### The place of the cut -/

/-- Any range that is not a number, and of the numbers one, multiples of the width, and those that
are not below it.
-/
def RoundsDown (w : Nat) (n : Expr) : Prop :=
  (∃ m, n.int? = some m ∧ (m = 1 ∨ (w : Int) ≤ m ∨ (w : Int) ∣ m)) ∨
    ((∀ m, n ≠ .lit m) ∧ ∀ a, n ≠ .num a)

theorem fdiv_eq_tdiv (hm : m = 1 ∨ (w : Int) ≤ m ∨ (w : Int) ∣ m) :
    m.fdiv w * w = m.tdiv w * w := by
  obtain hm | hm : 0 ≤ m ∨ (w : Int) ∣ m :=
    hm.elim (fun h => .inl (by omega)) (.imp_left fun h => by omega)
  · rw [Int.fdiv_eq_tdiv_of_nonneg hm (by omega)]
  · rw [Int.fdiv_mul_cancel hm, Int.tdiv_mul_cancel hm]

theorem num_of_int? {a : Number} (h : a.int? = some m) : a = .rat m := by
  cases a with
  | rat q =>
    simp only [Number.int?] at h
    split at h
    · next hden =>
      obtain rfl := Option.some.inj h
      exact congrArg Number.rat (Rat.coe_int_num_of_den_eq_one hden).symm
    · cases h
  | _ => cases h

theorem rounding_ints (machine : Bool) (m : Int) (hw : 0 < w) :
    rounding machine .moduloFloor [.int m, .int w] = .ok (.int (m.fdiv w * w)) := by
  refine IntegerFunction.rounding_ints ?_
  simp [roundNumbers, Number.toRat?, Number.ofInt, Number.mul, Number.isInfinite, Number.combine,
    hw.ne']

theorem rounded_lit (m : Int) (hw : 0 < w) :
    rounded A .moduloFloor (.lit m) w = .ok (.lit (m.fdiv w * w)) := by
  change rounding true .moduloFloor [.int m, .int w] >>= _ = _
  rw [rounding_ints true m hw]
  generalize m.fdiv w * w = k
  change (Except.ok (.lit ((Number.rat k).int?.getD 0)) : Outcome Expr) = _
  simp [Number.int?]

/-- It is known at once, or it is computed when the loop starts. -/
theorem rounded_eq_ok (hw : 0 < w) (hs : RoundsDown w n) (h : rounded A .moduloFloor n w = .ok e) :
    (∃ m, n.int? = some m ∧ e.int? = some (m.tdiv w * w)) ∨ e = .fn .moduloFloor [n, .int w] := by
  have hint : ∀ k : Int, (Number.rat k).int? = some k := fun k => by simp [Number.int?]
  rcases hs with ⟨m, hm, hcases⟩ | ⟨hlit, hnum⟩
  · refine .inl ⟨m, hm, ?_⟩
    rw [← fdiv_eq_tdiv hcases]
    cases n with
    | node _ _ => cases hm
    | atom a =>
      cases a with
      | num q =>
        obtain rfl := num_of_int? hm
        obtain rfl : .int (m.fdiv w * w) = e :=
          Except.ok.inj ((rounding_ints false m hw).symm.trans h)
        exact hint _
      | lit k =>
        obtain rfl : k = m := Option.some.inj hm
        obtain rfl : .lit (k.fdiv w * w) = e := Except.ok.inj ((rounded_lit k hw).symm.trans h)
        rfl
      | _ => cases hm
  · right
    unfold rounded at h
    split at h
    · exact absurd rfl (hlit _)
    · change rounding false .moduloFloor [n, .int w] = .ok e at h
      unfold rounding at h
      split at h
      · next a b heq => exact absurd (cons.inj heq).1 (hnum a)
      · exact (Except.ok.inj h).symm

variable {V : Type} {M : Model V} {H H' : Head → Prop}

section

variable {v : View V}

theorem eval_rounded (hM : ∀ a b, M.apply (.fn .moduloFloor) [some (M.int a), some (M.int b)] =
      some (M.int (a.tdiv b * b)))
    (hw : 0 < w) (hn : M.eval v n = some (M.int m)) (hs : RoundsDown w n)
    (h : rounded A .moduloFloor n w = .ok e) : M.eval v e = some (M.int (m.tdiv w * w)) := by
  rcases rounded_eq_ok hw hs h with ⟨k, hk, he⟩ | rfl
  · obtain rfl : k = m := M.int_unique (M.eval_of_int? _ hk) hn
    exact M.eval_of_int? _ he
  · have happly : M.eval v (.fn .moduloFloor [n, .int w]) = M.apply (.fn .moduloFloor) [M.eval v n,
      M.eval v (.int w)] := by
      simp [eval]
    rw [happly, hn, eval_int, hM]

theorem over_rounded (hfloor : H (.fn .moduloFloor)) (hw : 0 < w) (hn : Over H IsSymbol n)
    (hs : RoundsDown w n) (h : rounded A .moduloFloor n w = .ok e) : Over H IsSymbol e := by
  rcases rounded_eq_ok hw hs h with ⟨k, hk, he⟩ | rfl
  · exact .of_int? he
  · exact .node hfloor (forall_mem_cons.2 ⟨hn, forall_mem_singleton.2 (.int _)⟩)

theorem eval_plus (hS : A.Sound M H) (hH : Operations H) {a b : Expr} {n : Int}
    (ha : M.eval v a = some (M.int m))
    (hb : M.eval v b = some (M.int n)) : M.eval v (plus A a b) = some (M.int (m + n)) := by
  unfold plus
  split
  · next x y =>
    obtain rfl : x = m := M.int_unique (M.eval_lit v x) ha
    obtain rfl : y = n := M.int_unique (M.eval_lit v y) hb
    exact M.eval_lit v _
  · exact hS.add_ints hH (by rw [eval_ofPosition, ha]) (by rw [eval_ofPosition, hb])

theorem over_plus (hC : A.Closed H) (hadd : H .add) {a b : Expr} (ha : Over H IsSymbol a)
    (hb : Over H IsSymbol b) : Over H IsSymbol (plus A a b) := by
  unfold plus
  split
  · exact .lit _
  · exact hC hadd (forall_mem_cons.2 ⟨ha.ofPosition, forall_mem_singleton.2 hb.ofPosition⟩) rfl

end

/-! ### The cells that are worked on -/

section

variable {l : Loop} {body : Body} {s : State V}

/-- A cell by itself, a loop over cells, or a loop over vectors. -/
inductive Covers (A : Algebra) (M : Model V) (w : Nat) (o : Options) (l : Loop) (body : Body)
    (s : State V) :
    Body → Ints → Prop where
  | nil : Covers A M w o l body s [] []
  | cell {e : Expr} {one r : Body} {i : Int} {is : Ints}
      (hone : replaceList A [(l.counter, e.ofPosition)] body = .ok one)
        (he : M.eval s.view e = some (M.int i))
      (hr : Covers A M w o l body s r is) : Covers A M w o l body s (.block none one :: r) (i :: is)
  | loop {k : Loop} {r : Body} {is js : Ints} (hcoord : k.coord = l.coord)
    (hstep : Machine.int? M s k.step = some 1)
      (hrounds : rounds M s k = some is) (hr : Covers A M w o l body s r js) :
      Covers A M w o l body s (.loop k body :: r) (is ++ js)
  | vectors {k : Loop} {t : Table Expr Expr} {body' r : Body} {is js : Ints}
    (hcoord : k.coord = l.coord)
      (ht : vectorElements A w o (.sym (Counter.symbol l.coord))
        [.loop { k with step := .lit 1 } body] = .ok (some t))
      (hbody : replaceList A t body = .ok body') (hstep : Machine.int? M s k.step = some w)
      (hrounds : rounds M s k = some is) (hr : Covers A M w o l body s r js) :
      Covers A M w o l body s (.loop k body' :: r) (is.flatMap (lanes w) ++ js)

theorem Covers.append {p q : Body} {is js : Ints} (hp : Covers A M w o l body s p is)
    (hq : Covers A M w o l body s q js) : Covers A M w o l body s (p ++ q) (is ++ js) := by
  induction hp with
  | nil => exact hq
  | cell hone he _ ih => exact .cell hone he ih
  | loop hcoord hstep hrounds _ ih => rw [append_assoc]; exact .loop hcoord hstep hrounds ih
  | vectors hcoord ht hbody hstep hrounds _ ih => rw [append_assoc]; exact .vectors hcoord ht hbody hstep hrounds ih

/-- A part of a loop works on the cells between its bounds. -/
theorem covers_of_isPart (hH : Operations H) (hS : A.Sound M H) {start stop : Expr} {part : Body}
    (hpart : Loop.IsPart A l body start stop part) (ha : M.eval s.view start = some (M.int a))
    (hb : M.eval s.view stop = some (M.int b)) : Covers A M w o l body s part (range a b 1) := by
  have hdiff : ∀ {n}, (Loop.difference A stop start).int? = some n → n = b - a := fun h =>
    M.int_unique (M.eval_of_int? _ h) (Loop.eval_difference hS hH hb ha)
  cases hpart with
  | empty h =>
    have hnone : range a b 1 = [] := by
      have := hdiff h
      simp [range, show b - a = 0 by omega]
    rw [hnone]
    exact .nil
  | one h hone =>
    have hsingle : range a b 1 = [a] := by
      have := hdiff h
      simp [range, show b - a = 1 by omega]
    rw [hsingle]
    exact .cell hone ha .nil
  | many =>
    have hc : Loop.Counts M s.view a b { coord := l.coord, start, stop } := ⟨ha, hb, M.eval_lit _ 1⟩
    have hloop : Covers A M w o l body s [.loop { coord := l.coord, start, stop } body]
      (range a b 1 ++ []) :=
      .loop rfl (int?_lit s 1) hc.rounds .nil
    rwa [append_nil] at hloop

/-- A loop whose bounds are whole vectors apart works on the same cells on vectors. -/
theorem covers_vectorLoop (hH : Simple H') (hw : 0 < w) {k : Loop} {st : Statement}
    (hr : vectorLoop A w o k body = .ok st) (hcoord : k.coord = l.coord) (hone : k.step = .lit 1)
    (hstart : Over H' IsSymbol k.start) (hstop : Over H' IsSymbol k.stop)
    (hc : k.Counts M s.view a b) (hdvd : (w : Int) ∣ b - a) :
    Covers A M w o l body s [st] (range a b 1) := by
  obtain ⟨t?, ht, hr⟩ := bind_eq_ok.1 hr
  cases t? with
  | none =>
    obtain rfl := pure_eq_ok.1 hr
    have hloop : Covers A M w o l body s [.loop k body] (range a b 1 ++ []) :=
      .loop hcoord (by rw [hone, int?_lit]) hc.rounds .nil
    rwa [append_nil] at hloop
  | some t =>
    simp only [Statement.replace, bind_eq_ok, pure_eq_ok] at hr
    obtain ⟨body', hbody, start, hstart', stop, hstop', step, hstep', rfl⟩ := hr
    have helements := isElement_of_vectorElements ht
    obtain rfl := replaceBound_eq_self hH helements hstart hstart'
    obtain rfl := replaceBound_eq_self hH helements hstop hstop'
    obtain rfl := replaceBound_eq_self hH helements (.lit w) hstep'
    have hrounds : rounds M s { k with step := .lit w } = some (range a b w) := by
      simp [rounds, Machine.int?, hc.start, hc.stop, toInt?_int]
    have hsame : { { k with step := .lit w } with step := .lit 1 } = k := by
      cases k
      cases hone
      rfl
    have hloop : Covers A M w o l body s [.loop { k with step := .lit w } body']
      ((range a b w).flatMap (lanes w) ++ []) :=
      .vectors hcoord (by rw [hsame, ← hcoord, ht]) hbody (int?_lit s w) hrounds .nil
    rwa [append_nil, flatMap_lanes hw hdvd] at hloop

/-- The bounds are numbers that are one cell or whole vectors apart, or a vector is known to fit
between them, or it is not known beforehand whether one fits. -/
inductive Splits (A : Algebra) (w : Nat) (l : Loop) : Prop where
  | numbers {a b : Int} (hstart : l.start = .lit a) (hstop : l.stop = .lit b) (h : b - a = 1 ∨
    (w : Int) ∣ b - a)
  | long {n : Int} (hn : (l.range A).int? = some n) (h : (w : Int) ≤ n)
  | unknown (hlit : ∀ n, l.range A ≠ .lit n) (hnum : ∀ q, l.range A ≠ .num q)
      (hplace : ∀ n, rounded A .moduloFloor (l.range A) w = .ok n →
        (Loop.difference A (plus A n l.start) l.start).int? ≠ some 0)

theorem Splits.roundsDown (h : Splits A w l) : RoundsDown w (l.range A) := by
  cases h with
  | @numbers a b hstart hstop h =>
    refine .inl ⟨b - a, ?_, h.imp_right .inr⟩
    rw [Loop.range, hstart, hstop]
    rfl
  | long hn h => exact .inl ⟨_, hn, .inr (.inl h)⟩
  | unknown hlit hnum _ => exact .inr ⟨hlit, hnum⟩

theorem Splits.rest (h : Splits A w l) (hH : Operations H) (hS : A.Sound M H) (hw : 2 ≤ w)
    (hc : l.Counts M s.view a b)
    (hn : rounded A .moduloFloor (l.range A) w = .ok n)
    (hv : M.eval s.view n = some (M.int ((b - a).tdiv w * w)))
    (hempty : (Loop.difference A (plus A n l.start) l.start).int? = some 0) :
    (Loop.difference A l.stop (plus A n l.start)).int? = some 0 ∨
    (Loop.difference A l.stop (plus A n l.start)).int? = some 1 := by
  have hzero : (b - a).tdiv w * w = 0 := by
    have hdiff := Loop.eval_difference hS hH (eval_plus hS hH hv hc.start) hc.start
    have := M.int_unique (M.eval_of_int? _ hempty) hdiff
    omega
  cases h with
  | @numbers x y hstart hstop h =>
    obtain rfl : x = a := M.int_unique (M.eval_lit s.view x) (hstart ▸ hc.start)
    obtain rfl : y = b := M.int_unique (M.eval_lit s.view y) (hstop ▸ hc.stop)
    have hrange : l.range A = .lit (y - x) := by
      rw [Loop.range, hstart, hstop]
      rfl
    rw [hrange, rounded_lit _ (by omega)] at hn
    obtain rfl := Except.ok.inj hn
    rw [fdiv_eq_tdiv (h.imp_right .inr), hzero, hstart, hstop]
    rcases h with h | h
    · exact .inr (congrArg some (by omega))
    · rw [Int.tdiv_mul_cancel h] at hzero
      exact .inl (congrArg some (by omega))
  | @long m hm h =>
    have hrange := Loop.eval_difference hS hH hc.stop hc.start
    obtain rfl : m = b - a := M.int_unique (M.eval_of_int? _ hm) hrange
    have hone : 1 ≤ (b - a).tdiv w := by
      rw [Int.tdiv_eq_ediv_of_nonneg (by omega), Int.le_ediv_iff_mul_le (by omega)]
      omega
    nlinarith
  | unknown _ _ hplace => exact absurd hempty (hplace n hn)

theorem tdiv_mul_bounds (hw : 0 < w) (n : Int) : (0 ≤ n → 0 ≤ n.tdiv w * w ∧ n.tdiv w * w ≤ n) ∧
    (n ≤ 0 → n.tdiv w * w ≤ 0 ∧ n ≤ n.tdiv w * w) := by
  have hpos : ∀ m : Int, 0 ≤ m → 0 ≤ m.tdiv w * w ∧ m.tdiv w * w ≤ m := by
    intro m hm
    rw [Int.tdiv_eq_ediv_of_nonneg hm]
    exact ⟨mul_nonneg (Int.ediv_nonneg hm (Int.natCast_nonneg w)) (Int.natCast_nonneg w),
      Int.ediv_mul_le m (by omega)⟩
  refine ⟨hpos n, fun hn => ?_⟩
  have := hpos (-n) (by omega)
  rw [Int.neg_tdiv, neg_mul] at this
  omega

/-- The cells in front of the place of the cut and those behind it. -/
theorem range_eq_append_of_tdiv (hw : 0 < w) (a b : Int) :
    range a b 1 = range a ((b - a).tdiv w * w + a) 1 ++ range ((b - a).tdiv w * w + a) b 1 := by
  obtain ⟨hpos, hneg⟩ := tdiv_mul_bounds hw (b - a)
  rcases le_or_gt a b with hab | hab
  · exact range_one_eq_append (by omega) (by omega)
  · rw [range_eq_nil hab.le, range_eq_nil (by omega), range_eq_nil (by omega)]
    rfl

/-- The vectors of the loop and the cells behind them run through the same rounds as the loop did, each
cell once. -/
theorem covers_innermostLoop (hH : Operations H) (hS : A.Sound M H)
    (hM : ∀ a b, M.apply (.fn .moduloFloor) [some (M.int a), some (M.int b)] =
      some (M.int (a.tdiv b * b)))
    (hB : Operations H') (hC : A.Closed H') (hfloor : H' (.fn .moduloFloor))
    (hpiece : ¬ H' .piecewise)
    (hw : 2 ≤ w) (ho : (o.aligned && o.padded) = false) {st : Statement}
    (hr : innermostLoop A w o l body = .ok st)
    (hstart : Over H' Substitute.IsSymbol l.start) (hstop : Over H' Substitute.IsSymbol l.stop)
    {a b : Int}
    (hc : l.Counts M s.view a b) (hs : Splits A w l) :
    ∃ parts, st = .block none parts ∧ Covers A M w o l body s parts (range a b 1) := by
  unfold innermostLoop at hr
  rw [if_neg (by simp [ho])] at hr
  simp only [Outcome.bind_eq_ok, Outcome.pure_eq_ok] at hr
  obtain ⟨n, hn, cut, hcut, parts, hparts, rfl⟩ := hr
  refine ⟨parts, rfl, ?_⟩
  obtain ⟨p, q, hp, hq, rfl⟩ := Loop.cut_eq_ok hcut
  have hv : M.eval s.view n = some (M.int ((b - a).tdiv w * w)) :=
    eval_rounded hM (by omega) (Loop.eval_difference hS hH hc.stop hc.start) hs.roundsDown hn
  have hplace : M.eval s.view (plus A n l.start) = some (M.int ((b - a).tdiv w * w + a)) :=
    eval_plus hS hH hv hc.start
  have hover : Over H' Substitute.IsSymbol (plus A n l.start) :=
    over_plus hC hB.add (over_rounded hfloor (by omega)
      (Loop.over_difference hB hC hstop hstart) hs.roundsDown hn) hstart
  have hrest : Covers A M w o l body s q _ := covers_of_isPart hH hS hq hplace hc.stop
  rw [range_eq_append_of_tdiv (w := w) (by omega) a b]
  cases hp with
  | empty hempty =>
    -- no vector fits: what is left is no loop, which would be taken for the one over vectors
    have hall : parts = q := by
      cases hq with
      | empty => exact (Except.ok.inj hparts).symm
      | one => exact (Except.ok.inj hparts).symm
      | many hzero hone => exact ((hs.rest hH hS hw hc hn hv hempty).elim hzero hone).elim
    rw [hall]
    exact (covers_of_isPart hH hS (.empty hempty) hc.start hplace).append hrest
  | one hone =>
    have hdiff := M.int_unique (M.eval_of_int? _ hone) (Loop.eval_difference hS hH hplace hc.start)
    have hdvd : (w : Int) ∣ 1 := ⟨(b - a).tdiv w, by rw [Int.mul_comm]; omega⟩
    have := Int.le_of_dvd (by omega) hdvd
    omega
  | many =>
    simp only [singleton_append, firstLoop, Outcome.bind_eq_ok, Outcome.pure_eq_ok] at hparts
    obtain ⟨st, hst, rfl⟩ := hparts
    have hfirst : Covers A M w o l body s [st] (range a ((b - a).tdiv w * w + a) 1) :=
      covers_vectorLoop ⟨hB.operation, hB.element, hpiece⟩ (by omega) hst rfl rfl hstart hover
        ⟨hc.start, hplace, M.eval_lit _ 1⟩ ⟨(b - a).tdiv w, by rw [Int.mul_comm]; omega⟩
    exact hfirst.append hrest

end

end Vector

/-! ### Bounds of loops -/

inductive Bounding : Head → Prop where
  | arithmetic {h : Head} (hh : Arithmetic h) : Bounding h
  | floor : Bounding (.fn .moduloFloor)

theorem Bounding.operations : Operations Bounding where
  add := .arithmetic .add
  mul := .arithmetic .mul
  cast := fun k => by
    refine Iff.trans ⟨fun h => ?_, .arithmetic⟩ (Arithmetic.operations.cast k)
    cases h
    assumption
  operation := fun h => by
    cases h with
    | arithmetic hh => exact Arithmetic.operations.operation hh
    | floor => rfl
  visible := fun h as => by
    cases h with
    | arithmetic hh => exact Arithmetic.operations.visible hh as
    | floor => rfl
  element := fun h => by
    cases h with
    | arithmetic hh => exact Arithmetic.operations.element hh

namespace Algebra

/-- Takes a symbol from itself, and builds everything else as asked. -/
def cancelling : Algebra where
  __ := bare
  add
    | [.sym a, .mul [c, .sym b]] => if c.int? = some (-1) ∧
      a = b then .zero else .add [.sym a, .mul [c, .sym b]]
    | as => .add as

theorem cancelling_add (as : Exprs) : cancelling.add as = .add as ∨
    cancelling.add as = .zero ∧ ∃ a c, as = [.sym a, .mul [c, .sym a]] ∧ c.int? = some (-1) := by
  unfold cancelling
  dsimp only
  split
  · split
    · next h =>
      obtain ⟨hc, rfl⟩ := h
      exact .inr ⟨rfl, _, _, rfl, hc⟩
    · exact .inl rfl
  · exact .inl rfl

theorem cancelling_sound : cancelling.Sound Whole.model Arithmetic := by
  refine sound_of_add (fun _ => rfl) (fun _ => rfl) fun as w => ?_
  rcases cancelling_add as with h | ⟨h, a, c, rfl, hc⟩
  · rw [h]
    exact .refl _
  · have hzero : Whole.model.eval w .zero = some (.int 0) := Whole.model.eval_int w 0
    have hmul : Whole.model.eval w (.add [.sym a, .mul [c, .sym a]]) =
        Whole.apply .add [w.symbol a, Whole.apply .mul [some (.int (-1)), w.symbol a]] := by
      simp only [eval_add, eval_mul, map_cons, Whole.model.eval_of_int? w hc]
      rfl
    rw [h, hmul]
    intro y hy
    -- only an integer has a multiple; a symbol without one has no difference either
    cases hx : w.symbol a with
    | none => simp [hx, Whole.apply] at hy
    | some x =>
      cases x with
      | int n =>
        have hsum : Whole.apply .add [some (.int n),
          Whole.apply .mul [some (.int (-1)), some (.int n)]] =
          some (.int (n + (-1 * (n * 1) + 0))) := rfl
        rw [hx, hsum] at hy
        rw [← hy]
        exact congrArg (fun k => some (Whole.int k)) (by ring)
      | address f k => simp [hx, Whole.apply, Whole.operation, Whole.int?] at hy
      | truth b => simp [hx, Whole.apply, Whole.operation, Whole.int?] at hy

theorem cancelling_closed : cancelling.Closed Bounding := by
  intro P h as e hh has hb
  have hadd : Over Bounding P (cancelling.add as) := by
    rcases cancelling_add as with h | ⟨h, -⟩
    · rw [h]
      exact .node (.arithmetic .add) has
    · rw [h]
      exact .int 0
  cases hh with
  | arithmetic hh => exact over_of_add (fun _ => rfl) (fun _ => rfl) Bounding.operations hadd hh (.arithmetic hh) has hb
  | floor =>
    change rounding false .moduloFloor as = .ok e at hb
    unfold rounding at hb
    split at hb
    · split at hb
      · simp only [bind_eq_ok, pure_eq_ok] at hb
        obtain ⟨k, -, rfl⟩ := hb
        exact .atom (by simp)
      · obtain rfl := Except.ok.inj hb
        exact .node .floor has
    · obtain rfl := Except.ok.inj hb
      exact .node .floor has

end Algebra

namespace Vector

open Machine Algebra

/-- Four neighbouring elements of a line. -/
def onLine (f : String) (i : Expr) : Expr :=
  .node (.cast .vectorAccess) [.onLine f i, .type (.vector .double 4), .bool false, .bool false]

/-- Nine cells are two vectors and a cell by itself. -/
theorem covers_innermostLoop_line :
    let l := Loop.line 0 9
    let body : List Statement := [.set (.onLine "g" l.counter) (.onLine "f" l.counter)]
    let parts : List Statement := [.loop { Loop.line 0 8 with step := .lit 4 }
      [.set (onLine "g" l.counter) (onLine "f" l.counter)],
      .block none [.set (.onLine "g" (.int 8)) (.onLine "f" (.int 8))]]
    innermostLoop cancelling 4 {} l body = .ok (.block none parts) ∧ ∃ parts',
      .block none parts = Statement.block none parts' ∧
      Covers cancelling Whole.model 4 {} l body (.ones ["f", "g"]) parts' (range 0 9 1) := by
  intro l body parts
  have hr : innermostLoop cancelling 4 {} l body = .ok (.block none parts) := by cbv
  have hs : Splits cancelling 4 l := .long rfl (by decide)
  exact ⟨hr, covers_innermostLoop Arithmetic.operations cancelling_sound
    (fun _ _ => rfl) Bounding.operations cancelling_closed
    .floor (by rintro ⟨⟨⟩⟩) (by decide) rfl hr (.lit 0) (.lit 9) ⟨rfl, rfl, rfl⟩ hs⟩

/-- Three cells are taken for a vector, which has a lane behind them. -/
theorem innermostLoop_passes_stop :
    let l := Loop.line 0 3
    let body : List Statement := [.set (.onLine "g" l.counter) (.onLine "f" l.counter)]
    let parts : List Statement := [.loop { Loop.line 0 3 with step := .lit 4 }
      [.set (onLine "g" l.counter) (onLine "f" l.counter)]]
    innermostLoop cancelling 4 {} l body = .ok (.block none parts) ∧
      Covers cancelling Whole.model 4 {} l body (.ones ["f", "g"]) parts (range 0 3 1 ++ [3]) := by
  intro l body parts
  have hcover : Covers cancelling Whole.model 4 {} l body (.ones ["f", "g"]) parts
    ([0].flatMap (lanes 4) ++ []) := by
    refine .vectors (t := [(.onLine "g" l.counter, onLine "g" l.counter),
      (.onLine "f" l.counter, onLine "f" l.counter)]) rfl
      ?_ ?_ rfl rfl .nil
    · cbv
    · cbv
  exact ⟨by cbv, hcover⟩

end Vector

end StencilForge
