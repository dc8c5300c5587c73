import StencilForge.Difference.Gradient
import StencilForge.Proofs.Inside

/-!
# Proofs — the values of differences

`Expr.Worth` follows how an algebra builds an expression from the values around a cell.  The
difference for diffusion is the Laplacian of scalar times coefficient (`Transport.worth_diffusion`):
a coefficient that varies is differentiated too, and nothing vanishes where the scalar is the same
everywhere (`Transport.worth_diffusion_of_ones`).
-/

open List StencilForge.Outcome

namespace StencilForge

open Access

variable {K : Type} [Field K] {A : Algebra} {v : Expr → K} {a b c dx e r : Expr} {es : Exprs}
    {x y h : K} {xs : List K}

namespace Expr

def IsLeaf (e : Expr) : Prop := e.isAccess = true ∨ ∃ a, e = .atom a

/-- Numbers have their own value. -/
def leafValue (v : Expr → K) : Expr → K
  | .atom (.num n) => (n.toRat?.getD 0 : Rat)
  | e => v e

/-- An expression is built from leaves, and exact arithmetic on the way gives the value. -/
-- not a function of the expression: an algebra may round the numbers that it puts together
inductive Worth (A : Algebra) (v : Expr → K) : Expr → K → Prop where
  | leaf {e : Expr} (he : e.IsLeaf) : Worth A v e (leafValue v e)
  | add {es : Exprs} {xs : List K} (h : Forall₂ (Worth A v) es xs) : Worth A v (A.add es) xs.sum
  | mul {es : Exprs} {xs : List K} (h : Forall₂ (Worth A v) es xs) : Worth A v (A.mul es) xs.prod
  | pow {a : Expr} {x : K} (ha : Worth A v a x) (n : Nat) : Worth A v (A.pow a (.int n)) (x ^ n)
  | quotient {a b : Expr} {x y : K} (hb : Worth A v b y) (hy : y ≠ 0) (ha : Worth A v a x) :
    Worth A v (A.quotient a b) (x / y)

namespace Worth

theorem int (n : Int) : Worth A v (.int n) n := by
  have h : Worth A v (.int n) (n : Rat) := .leaf (.inr ⟨_, rfl⟩)
  rwa [Rat.cast_intCast] at h

theorem add2 (ha : Worth A v a x) (hb : Worth A v b y) : Worth A v (A.add2 a b) (x + y) := by
  simpa [Algebra.add2] using add (.cons ha (.cons hb .nil))

theorem mul2 (ha : Worth A v a x) (hb : Worth A v b y) : Worth A v (A.mul [a, b]) (x * y) := by
  simpa using mul (.cons ha (.cons hb .nil))

theorem sub (ha : Worth A v a x) (hb : Worth A v b y) : Worth A v (A.sub a b) (x - y) := by
  have h := ha.add2 ((int (-1)).mul2 hb)
  rwa [Int.cast_neg, Int.cast_one, neg_one_mul, ← sub_eq_add_neg] at h

theorem sum (h : Forall₂ (Worth A v) es xs) : Worth A v (A.sum es) xs.sum := by
  have hfold : ∀ {e x}, Worth A v e x → Worth A v (es.foldl A.add2 e) (x + xs.sum) := by
    induction h with
    | nil => simp
    | cons hx _ ih =>
      intro e x he
      simpa [add_assoc] using ih (he.add2 hx)
  simpa [Algebra.sum, zero] using hfold (int 0)

end Worth

end Expr

namespace Transport

open Expr

variable {f : GridField} {s : Scheme} {index : Option Expr} {l : Exprs} {k n : Nat} {step : Int}

theorem isAccess_fieldNeighbor {p : Expr} (h : fieldNeighbor f k p = .ok e) :
    e.isAccess = true := by
  obtain ⟨_, -, h⟩ := bind_eq_ok.1 h
  obtain ⟨_, rfl, -⟩ := make_eq_ok h
  rfl

theorem isAccess_scalarAt (h : scalarAt f index k step = .ok e) : e.isAccess = true := by
  have hmade : ∀ i, (fieldNeighbor f k (.lit step) >>= (value · [.lit i])) = .ok e →
    e.isAccess = true := by
    intro i h
    obtain ⟨_, hb, h⟩ := bind_eq_ok.1 h
    obtain ⟨_, -, hb⟩ := bind_eq_ok.1 hb
    obtain ⟨_, rfl, -⟩ := make_eq_ok hb
    obtain ⟨_, -, h⟩ := value_eq_ok rfl h
    obtain ⟨_, rfl, -⟩ := make_eq_ok h
    rfl
  unfold scalarAt at h
  split at h
  · exact hmade 0 h
  · split at h
    · exact hmade _ h
    · cases h

theorem isLeaf_coefficientAt (hc : c.IsLeaf) (h : coefficientAt c k step = .ok e) : e.IsLeaf := by
  unfold coefficientAt at h
  split at h
  · exact .inl (isAccess_fieldNeighbor h)
  · exact Except.ok.inj h ▸ hc

/-- The value of an access, if it can be made. -/
def read (v : Expr → K) : Outcome Expr → K
  | .ok e => leafValue v e
  | .error _ => 0

def laplacian (n : Nat) (h : K) (q : Nat → Int → K) : K :=
  ((range n).map fun k => q k 1 - 2 * q 0 0 + q k (-1)).sum / h ^ 2

theorem laplacian_mul {p q : Nat → Int → K} (hq : ∀ k < n, ∀ step, q k step = x) :
    laplacian n h (fun k step => p k step * q k step) = x * laplacian n h p := by
  rw [laplacian, laplacian, ← mul_div_assoc, ← sum_map_mul_left]
  congr 2
  refine map_congr_left fun k hk => ?_
  have hk := mem_range.1 hk
  rw [hq k hk, hq k hk, hq 0 (by omega)]
  ring

/-- The difference for diffusion is the Laplacian of scalar times coefficient, so one of them times
the Laplacian of the other where the one is the same everywhere. -/
theorem worth_diffusion (hf : a.field? = some f) (hc : c.IsLeaf) (hdx : Worth A v dx h) (hh : h ≠ 0)
    (hr : discretizeSpace A s dx (.fn .diffusion (a :: c :: l)) = .ok r) :
    let n := f.spatialDimensions
    let u := fun k step => read v (scalarAt f l.head? k step)
    let d := fun k step => read v (coefficientAt c k step)
    Worth A v r (laplacian n h fun k step => u k step * d k step) ∧
      (∀ x, (∀ k < n, ∀ step, d k step = x) → Worth A v r (x * laplacian n h u)) ∧
      ∀ x, (∀ k < n, ∀ step, u k step = x) → Worth A v r (x * laplacian n h d) := by
  intro n u d
  have hr : diffusionDifference A dx f c l.head? = .ok r := by
    simpa [discretizeSpace, Visit.replace, hf] using hr
  have hread : ∀ {o e}, o = .ok e → e.IsLeaf → Worth A v e (read v o) := fun ho he => ho ▸ .leaf he
  have hproduct : ∀ {k step e e'}, scalarAt f l.head? k step = .ok e →
    coefficientAt c k step = .ok e' →
      Worth A v (A.mul [e, e']) (u k step * d k step) := fun he he' =>
    (hread he (.inl (isAccess_scalarAt he))).mul2 (hread he' (isLeaf_coefficientAt hc he'))
  simp only [diffusionDifference, bind_eq_ok, pure_eq_ok, mapM_eq_ok] at hr
  obtain ⟨parts, hparts, rfl⟩ := hr
  have hparts : Forall₂ (fun k e => Worth A v e
    (u k 1 * d k 1 - 2 * (u 0 0 * d 0 0) + u k (-1) * d k (-1))) (range n) parts := by
    refine hparts.imp ?_
    rintro k e ⟨_, ⟨_, ⟨_, hu, _, hc, rfl⟩, _, ⟨_, hu₀, _, hc₀, rfl⟩, rfl⟩, _,
      ⟨_, ⟨_, hl, _, hb, rfl⟩, _, ⟨_, hl₀, _, hb₀, rfl⟩, rfl⟩, rfl⟩
    have hpart := ((Worth.int 1).mul2 ((hproduct hu hc).sub (hproduct hu₀ hc₀))).sub
      ((Worth.int (-1)).mul2 ((hproduct hl hb).sub (hproduct hl₀ hb₀)))
    convert hpart using 1
    push_cast
    ring
  have hsquare : Worth A v (A.pow dx (.int 2)) (h ^ 2) := hdx.pow 2
  have hr := hsquare.quotient (pow_ne_zero 2 hh) (.sum (forall₂_map_right_iff.2 hparts.flip))
  refine ⟨hr, fun x hx => laplacian_mul hx ▸ hr, fun x hx => ?_⟩
  rw [← laplacian_mul hx]
  simpa only [laplacian, mul_comm] using hr

/-- The scalar is one everywhere, the coefficient a parabola. -/
theorem worth_diffusion_of_ones :
    let v : Expr → ℚ := fun e => if e.field? =
      some (.line "d") then (e.offsets.head?.bind Expr.int?).getD 0 ^ 2 else 1
    ∃ r, discretizeSpace .bare .standard (.int 1)
      (.fn .diffusion [Access.center (.line "u"), Access.center (.line "d")]) = .ok r ∧
      Worth .bare v r 2 := by
  intro v
  refine ⟨_, rfl, ?_⟩
  obtain ⟨-, -, h⟩ := worth_diffusion (v := v) (s := .standard) (l := []) rfl (.inl rfl) (.int 1)
    (by simp)
    (rfl : discretizeSpace .bare .standard (.int 1) (.fn .diffusion [center (.line "u"),
      center (.line "d")]) = _)
  have h := h 1 fun k hk step => by
    obtain rfl : k = 0 := Nat.lt_one_iff.1 hk
    rfl
  convert h using 1
  change (2 : ℚ) = 1 * ((1 ^ 2 - 2 * 0 ^ 2 + (-1) ^ 2 + 0) / 1 ^ 2)
  norm_num

end Transport

end StencilForge
