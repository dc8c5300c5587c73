import StencilForge.Assignment.Basic
import StencilForge.Expr.Access
import StencilForge.Expr.Collect
import StencilForge.NdArray

/-!
# Stencils — linear functions of a field

A sum of values of one field around the current cell, each with a coefficient.
-/

namespace StencilForge

structure LinearStencil where
  center : Expr
  field : GridField
  coefficients : Table Exprs Expr
  rest : Expr

namespace LinearStencil

variable (A : Algebra)

def ofExpr (e : Expr) : Outcome LinearStencil := do
  let e ← Build.expand A e
  let accesses := Access.all e
  let fields := unionNew [] (accesses.filterMap Expr.field?)
  let indices := unionNew [] (accesses.map Expr.index)
  let [f] := fields
    | raiseWith .invalid ("Could not extract stencil coefficients. " ++
        "Expression has to be a linear function of exactly one field.")
  let [i] := indices
    | raiseWith .invalid "Could not extract stencil coefficients. Field is accessed at multiple indices"
  let coefficients := accesses.foldl (fun t a => Table.insert t a.offsets (Coefficient.of A e a)) []
  let terms ← coefficients.mapM fun (o, c) => do return A.mul [c, ← Access.value (← Access.shifted f o) i]
  return { center := ← Access.ofField f i, field := f, coefficients, rest := A.sub e (A.sum terms) }

def ofLinear (e : Expr) : Outcome LinearStencil := do
  let s ← ofExpr A e
  require s.rest.isZero .violated
  return s

def reach (s : LinearStencil) (d : Nat) : Nat :=
  s.coefficients.foldl (fun m (o, _) => max m ((o.getD d .zero).int?.getD 0).natAbs) 0

/-- The first coordinate last.  In the form of a picture the second one runs downward. -/
def toArray (s : LinearStencil) (picture : Bool) : Outcome (NdArray Expr) := do
  let dim := s.field.spatialDimensions
  if 3 < dim || dim = 0 then raiseWith .invalid "Can only handle fields with 1,2 or 3 spatial dimensions"
  let shape := (List.range dim).reverse.map fun d => 2 * s.reach d + 1
  let a := .ofFn shape fun i =>
    let offset := i.reverse.zipIdx.map fun (k, d) => k - s.reach d
    (Table.get? s.coefficients (offset.map Expr.int)).getD .zero
  return if picture && 1 < dim then a.flip (dim - 2) else a

inductive Order where
  /-- As it is written: rows from top to bottom. -/
  | visual
  | indexed

def Order.ofName : String → Outcome Order
  | "visual" => .ok visual
  | "numpy" => .ok indexed
  | _ => raiseWith .invalid "'order' has to be either 'visual' or 'numpy'"

def assignment (weights : NdArray Expr) (source target : Expr) (factor : Option Expr) (order : Order) :
    Outcome Assignment := do
  let w ← match order with
    | .indexed => pure weights
    | .visual =>
      if weights.dimensions < 2 then raise .badAxis
      else pure ((weights.transpose (NdArray.swapped weights.dimensions 0 1)).flip 1)
  let middle := w.shape.map (· / 2)
  let terms ← (NdArray.indices w.shape).mapM fun i => do
    let shift := List.zipWith (fun (k m : Nat) => Expr.lit ((k : Int) - m)) i middle
    return A.mul [w.getD i .zero, ← Access.move A source shift]
  let sum := A.sum terms
  let value := factor.elim sum fun k => if k.isZero then sum else A.mul [sum, k]
  Assignment.make target value

end LinearStencil

end StencilForge
