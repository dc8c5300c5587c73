import StencilForge.Difference.Derivative
import StencilForge.Difference.Weights
import StencilForge.Kernel.Counter

/-!
# Differences — derivatives of fields as differences

A `Scheme` says how a derivative of an access becomes a difference.  `Spatial.discretizeStaggered` treats derivatives
of derivatives as differences of values on faces.
-/

namespace StencilForge

inductive Scheme where
  | standard
  | isotropic
  | isotropicDense
  | fourthOrder
  deriving DecidableEq, Repr

namespace Scheme

variable (A : Algebra)

def ofName : String → Outcome Scheme
  | "standard" => .ok standard
  | "isotropic" => .ok isotropic
  | "isotropic_hd" => .ok isotropicDense
  | _ => raiseWith .invalid "Unknown stencil. Supported 'standard' and 'isotropic'"

def isCoordinate : Expr → Outcome Bool
  | .num n => .ok (!n.isNeg)
  | _ => raise .mistyped

def neighbor (a target : Expr) (step : Int) : Outcome Expr := do
  Access.neighbor A a (← present .mistyped target.int?) (.lit step)

def diagonals (a s t : Expr) : Outcome Exprs :=
  [(1, 1), (-1, 1), (1, -1), (-1, -1)].mapM fun (i, j) => do
    return A.mul [.int (i * j), ← neighbor A (← neighbor A a s i) t j]

def standardDifference (ts : Exprs) (dx a : Expr) : Outcome Expr := do
  unless (← ts.mapM isCoordinate).all id do raiseWith .violated "Can only discretize objects with (integer) subscripts"
  match ts with
  | [t] => do return A.quotient (A.sub (← neighbor A a t 1) (← neighbor A a t (-1))) (A.mul [.int 2, dx])
  | [s, t] =>
    if s == t then do
      let sum := A.sum [A.mul [.int (-2), a], ← neighbor A a s (-1), ← neighbor A a s 1]
      return A.quotient sum (A.pow dx (.int 2))
    else do return A.quotient (A.sum (← diagonals A a s t)) (A.mul [.int 4, A.pow dx (.int 2)])
  | _ => raiseWith .unsupported "Supports only derivatives up to order 2"

def otherCoordinate (t : Expr) : Expr := if t.int? == some 0 then .one else .zero

def planeGradient (t dx a : Expr) : Outcome Expr := do
  unless (← isCoordinate t) && (t.num?.any fun n => n.lt (.ofInt 2)) do raise .violated
  let weights := [((-1 : Int), mkRat 1 12), (0, mkRat 1 3), (1, mkRat 1 12)].map fun (o, w) =>
    (o, A.quotient (.rat w) dx)
  let side := fun (step : Int) => do
    return A.sum (← weights.mapM fun (o, w) => do
      return A.mul [← neighbor A (← neighbor A a t step) (otherCoordinate t) o, w])
  return A.sub (← side 1) (← side (-1))

def diagonalSum (a : Expr) : Outcome Expr := do
  let ns ← [((-1 : Int), (-1 : Int)), (-1, 1), (1, -1), (1, 1)].mapM fun (i, j) => do
    neighbor A (← neighbor A a .zero i) .one j
  return A.sum ns

def lineSum (a t : Expr) : Outcome Expr := do return A.sum [← neighbor A a t (-1), ← neighbor A a t 1]

/-- Isotropic differences: in a plane up to second order, on a line the central ones. -/
def planeDifference (dense : Bool) (ts : Exprs) (dx a : Expr) : Outcome Expr := do
  let dim := (a.field?.map GridField.spatialDimensions).getD 0
  let refuse : Outcome Expr := raiseWith .unsupported "Supports only derivatives up to order 2 for 1D and 2D setups"
  match dim, ts with
  | 1, ts => standardDifference A ts dx a
  | 2, [t] => planeGradient A t dx a
  | 2, [s, t] =>
    if s == t then do
      let part := fun q e => A.mul [.rat q, e]
      let sum ← if dense then do
          pure [part (mkRat 1 8) (← diagonalSum A a), part (mkRat 1 2) (← lineSum A a s), part (mkRat (-3) 2) a]
        else do
          pure [part (mkRat 1 12) (← diagonalSum A a), part (mkRat 5 6) (← lineSum A a s),
            part (mkRat (-1) 6) (← lineSum A a (otherCoordinate s)), part (mkRat (-5) 3) a]
      return A.quotient (A.sum sum) (A.pow dx (.int 2))
    else standardDifference A ts dx a
  | _, _ => refuse

def square : Stencil :=
  ([-2, -1, 0, 1, 2] : Ints).flatMap fun i => ([-2, -1, 0, 1, 2] : Ints).map fun j => [i, j]

/-- One weight is free and set to a tenth. -/
def fourthOrderWeights (coord : Nat) : Outcome WeightedStencil := do
  let p ← WeightProblem.create [coord] square .one
  let p ← p.setWeight (if coord = 0 then [2, 0] else [0, 2]) (.rat (mkRat 1 10))
  let p ← p.assumeSymmetric A coord true
  let p ← p.assumeSymmetric A (1 - coord) false
  p.solve A true

def fourthOrderDifference (ts : Exprs) (dx a : Expr) : Outcome Expr := do
  match ts with
  | [t] => match t.int? with
    | some 0 => do return A.quotient (← (← fourthOrderWeights A 0).apply A a) dx
    | some 1 => do return A.quotient (← (← fourthOrderWeights A 1).apply A a) dx
    | _ => raiseWith .unsupported "Forth order finite difference discretization is only implemented for 2D"
  | _ =>
    raiseWith .unsupported
      "Forth order finite difference discretization is currently only supported for first derivatives"

def difference (s : Scheme) (ts : Exprs) (dx a : Expr) : Outcome Expr :=
  match s with
  | standard => standardDifference A ts dx a
  | isotropic => planeDifference A false ts dx a
  | isotropicDense => planeDifference A true ts dx a
  | fourthOrder => fourthOrderDifference A ts dx a

end Scheme

namespace Spatial

variable (A : Algebra)

def difference (s : Scheme) (dx e : Expr) : Outcome Expr := do
  let (a, ts) := Derivative.unnest e
  unless a.isAccess do
    raiseWith .invalid "Only derivatives with field or field accesses as arguments can be discretized"
  s.difference A ts dx a

def discretize (s : Scheme) (dx e : Expr) : Outcome Expr :=
  Visit.replace A (fun e => if e.isDiff then some (difference A s dx e) else none) e

def onFace (s : Scheme) (dx target : Expr) (side : Int) (e : Expr) : Outcome Expr :=
  let face := fun (a : Expr) => Scheme.neighbor A a target side
  Visit.replace A (fun e => match e with
    | .node .diff _ => some do
        let (a, ts) := Derivative.unnest e
        let [t] := ts | raiseWith .invalid "Function supports only up to second derivatives"
        unless a.isAccess do raiseWith .invalid "Argument of inner derivative has to be field access"
        if t == target then return A.mul [A.quotient (A.sub (← face a) a) dx, .int side]
        else
          let sum := A.add2 (← s.difference A ts dx (← face a)) (← s.difference A ts dx a)
          return A.quotient sum (.int 2)
    | .node (.access ..) _ => some do return A.quotient (A.add2 (← face e) e) (.int 2)
    | .sym c => some do
        let coord ← Counter.coordinate? c
        return if coord == target.int? && coord.isSome then A.add2 e (.num (.ofFloat (if side < 0 then -0.5 else 0.5)))
        else e
    | _ => none) e

/-- Derivatives of other expressions than accesses become differences of values on faces. -/
def discretizeStaggered (s : Scheme) (dx e : Expr) : Outcome Expr :=
  Visit.replace A (fun e =>
    if e.isDiff then some do
      let (inner, ts) := Derivative.unnest e
      if inner.isAccess then s.difference A ts dx inner
      else
        let [t] := ts
          | raiseWith .invalid "This term is not support by the staggered discretization strategy"
        return A.quotient (A.sub (← onFace A s dx t 1 inner) (← onFace A s dx t (-1) inner)) dx
    else none) e

end Spatial

end StencilForge
