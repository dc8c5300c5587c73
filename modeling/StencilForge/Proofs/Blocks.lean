import StencilForge.Kernel.LoopNest
import StencilForge.Proofs.Renaming
import StencilForge.Proofs.Whole

/-!
# Proofs — loops over blocks of cells

The rounds of a loop with a step (`Machine.mem_range`), each of them in one of the blocks
(`Machine.exists_block`), and the loop that is left inside of a block
(`LoopNest.withinBlock_eq_ok`).
-/

open StencilForge.Outcome
open List hiding range mem_range

namespace StencilForge

open Function Except

variable {V : Type} {A : Algebra} {H : Head → Prop} {M : Model V}
variable {a b c k y : Int} {e i : Expr} {body body' inner : Body} {heads outer : List Loop}

theorem Counter.symbol_ne_blockSymbol (c d : Int) : symbol c ≠ blockSymbol d := by
  intro h
  have hname : "ctr_" ++ toString c = "_blockctr_" ++ toString d := congrArg Symbol.name h
  have hdata := congrArg String.toList hname
  simp at hdata

namespace Machine

variable {x : Int}

theorem mem_range (hc : 0 < c) : x ∈ range a b c ↔ ∃ i : Nat, x = a + c * i ∧ x < b := by
  rw [range, if_pos hc]
  simp only [mem_map, List.mem_range]
  constructor
  · rintro ⟨i, hi, rfl⟩
    refine ⟨i, rfl, ?_⟩
    have h : i + 1 ≤ (b - a + c - 1) / c := by omega
    have := (Int.le_ediv_iff_mul_le hc).1 h
    nlinarith
  · rintro ⟨i, rfl, hb⟩
    refine ⟨i, ?_, rfl⟩
    have h : i + 1 ≤ (b - a + c - 1) / c := (Int.le_ediv_iff_mul_le hc).2 (by nlinarith)
    omega

theorem mem_range_one : x ∈ range a b 1 ↔ a ≤ x ∧ x < b := by
  rw [mem_range one_pos]
  constructor
  · omega
  · rintro ⟨ha, hb⟩
    exact ⟨(x - a).toNat, by omega, hb⟩

theorem exists_block (hk : 0 < k) (hx : x ∈ range a b 1) :
    ∃ y ∈ range a b k, x ∈ range y (min b (y + k)) 1 := by
  obtain ⟨ha, hb⟩ := mem_range_one.1 hx
  have hmod := Int.emod_add_mul_ediv (x - a) k
  have hpos := Int.emod_nonneg (x - a) hk.ne'
  have hlt := Int.emod_lt_of_pos (x - a) hk
  have hdiv : 0 ≤ (x - a) / k := Int.ediv_nonneg (by omega) hk.le
  refine ⟨a + k * ((x - a) / k), (mem_range hk).2 ⟨((x - a) / k).toNat, ?_, ?_⟩,
    mem_range_one.2 ⟨?_, ?_⟩⟩
  · rw [Int.toNat_of_nonneg hdiv]
  · omega
  · omega
  · omega

end Machine

theorem Model.int_unique (M : Model V) {x : Option V} {m n : Int} (h : x = some (M.int m))
    (h' : x = some (M.int n)) :
    m = n := by
  have hsame : M.int m = M.int n := Option.mem_unique h h'
  rw [← Option.some_inj, ← M.toInt?_int m, hsame, toInt?_int]

theorem Expr.Over.of_int? {P : Expr → Prop} {n : Int} (h : e.int? = some n) : Over H P e := by
  cases e with
  | node h as => cases h
  | atom a => exact .atom fun s hs => by simp [hs, int?] at h

def Counter.NotBlock (x : Symbol) : Prop := ∀ c, x ≠ Counter.blockSymbol c

theorem Counter.blockSymbol_injective {d : Int} (h : blockSymbol c = blockSymbol d) : c = d := by
  have hname : "_blockctr_" ++ toString c = "_blockctr_" ++ toString d := congrArg Symbol.name h
  exact Int.repr_injective ((String.append_right_inj _).1 hname)

namespace Statement

open Counter

def Uses (U : Symbol → Prop) (e : Expr) : Prop := ∀ y, .sym y ∈ variablesOf e → U y

theorem uses_int {U : Symbol → Prop} {n : Int} (h : e.int? = some n) : Uses U e := by
  intro y hy
  cases e with
  | node h as => cases h
  | atom a => cases a <;> simp_all [variablesOf, Expr.int?]

theorem uses_sym {U : Symbol → Prop} {x : Symbol} (h : U x) : Uses U (.sym x) := fun y hy => by
  obtain rfl := Motion.sym_mem_sym.1 hy
  exact h

end Statement

namespace Loop

variable {w : View V}

theorem eval_difference (hS : A.Sound M H) (hH : Operations H) {a b : Expr} {m n : Int}
    (ha : M.eval w a = some (M.int m))
    (hb : M.eval w b = some (M.int n)) : M.eval w (difference A a b) = some (M.int (m - n)) := by
  unfold difference
  split
  · next x y =>
    obtain rfl : x = m := M.int_unique (M.eval_lit w x) ha
    obtain rfl : y = n := M.int_unique (M.eval_lit w y) hb
    exact M.eval_lit w _
  · exact hS.sub_ints hH (by rw [Model.eval_ofPosition, ha]) (by rw [Model.eval_ofPosition, hb])

structure Counts (M : Model V) (w : View V) (a b : Int) (l : Loop) : Prop where
  start : M.eval w l.start = some (M.int a)
  stop : M.eval w l.stop = some (M.int b)
  step : M.eval w l.step = some (M.int 1)

theorem Counts.rounds {s : Machine.State V} {l : Loop} (h : l.Counts M s.view a b) :
    Machine.rounds M s l = some (Machine.range a b 1) := by
  simp [Machine.rounds, Machine.int?, h.start, h.stop, h.step, M.toInt?_int]

end Loop

namespace LoopNest

open Statement Machine Counter Substitute

variable {f : Loop → Outcome Loop}
variable {sizes : Exprs} {st : Statement} {l l' : Loop} {n : Expr}

/-- The end of the block is cut off at the end of the loop, unless all blocks are whole. -/
theorem withinBlock_eq_ok (hn : extent sizes l.coord = .ok n)
    (h : withinBlock A sizes l = .ok l') :
    ∃ stop, l' = { l with start := .sym (blockSymbol l.coord), stop } ∧
      (stop = A.add2 (.sym (blockSymbol l.coord)) n.ofPosition ∧
          (∃ r k, (l.range A).int? = some r ∧ n.int? = some k ∧ r % k = 0) ∨
        Build.node A (.fn .min) [l.stop.ofPosition,
          A.add2 (.sym (blockSymbol l.coord)) n.ofPosition] = .ok stop) := by
  simp only [withinBlock, bind_eq_ok, hn, ok.injEq, exists_eq_left'] at h
  split at h
  · next r k hr hk =>
    split at h
    · simp at h
    simp only [bind_eq_ok, pure_eq_ok, exists_eq_left'] at h
    split at h
    · next hmod =>
      obtain ⟨_, rfl, rfl⟩ := h
      exact ⟨_, rfl, .inl ⟨rfl, r, k, hr, hk, by simpa using hmod⟩⟩
    · simp only [bind_eq_ok, pure_eq_ok] at h
      obtain ⟨stop, hstop, rfl⟩ := h
      exact ⟨stop, rfl, .inr hstop⟩
  · simp only [bind_eq_ok, pure_eq_ok, exists_eq_left', Bool.false_eq_true, if_false] at h
    obtain ⟨stop, hstop, rfl⟩ := h
    exact ⟨stop, rfl, .inr hstop⟩

/-- What the loops along each coordinate count, and how large the blocks are. -/
structure Extents where
  lo : Int → Int
  hi : Int → Int
  size : Int → Int

theorem notBlock_line (f : String) (hf : f = "f" ∨ f = "g") (t : DataType) :
    NotBlock (.typed f t) := by
  intro c h
  have hdata : f.toList = ("_blockctr_" ++ toString c).toList := congrArg (fun x => x.name.toList) h
  rcases hf with rfl | rfl <;> simp at hdata

theorem uses_line {f : String} (hf : f = "f" ∨ f = "g") (hi : Uses NotBlock i) :
    ∀ a ∈ [Expr.typedSymbol f (.pointer .double false true), i], Uses NotBlock a := by
  intro a ha
  rcases mem_pair.1 ha with rfl | rfl
  · exact uses_sym (notBlock_line f hf _)
  · exact hi

theorem uses_onLine {f : String} (hf : f = "f" ∨ f = "g") (hi : Uses NotBlock i) :
    Uses NotBlock (.onLine f i) := by
  intro y hy
  rcases Motion.sym_mem_resolved.1 hy with hy | hy
  · exact uses_line hf hi _ mem_cons_self y hy
  · exact hi y hy

end LoopNest

end StencilForge
