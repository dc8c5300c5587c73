import StencilForge.Query.Expression
import StencilForge.Stencil.Linear

/-!
# Questions about stencils
-/

open StencilForge.Derivative

namespace StencilForge.Query

open Document LinearStencil

variable (j : Json)

def stencil : Answer := do
  match strD j "fn" with
  | "inverse" => return ints (Stencil.inverse (← asInts (j "d")))
  | "is_valid" => return .bool (← (← asStencil (j "stencil")).isValid (int? j "max_neighborhood"))
  | "is_symmetric" => return .bool (← asStencil (j "stencil")).isSymmetric
  | "same_entries" => return .bool ((← asStencil (j "a")).sameEntries (← asStencil (j "b")))
  | "component" => return .str (← Stencil.componentName (intD j "coord") (intD j "value"))
  | "to_string" => return .str (Stencil.directionName (← asInts (j "offset")))
  | "to_offset" => return ints (← Stencil.ofDirectionName (strD j "s") (natD j "dim" 3))
  | _ => bad

def stencilCoefficients : Answer := do
  let c ← readNames j
  let e ← readExpr c (j "expr")
  match strD j "fn" with
  | "dict" => do
    let s ← ofExpr A e
    return .obj [("center", ← ofExpr s.center), ("coeffs", ← ofTable ofExprs s.coefficients), ("rest", ← ofExpr s.rest)]
  | "pairs" => do ofTable ofExprs (← ofLinear A e).coefficients
  | _ => do
    let picture := boolD j "matrix"
    let a ← (← ofLinear A e).toArray picture
    let rows := fun r w xs => ofRows ((List.range r).map fun i => (xs.drop (i * w)).take w)
    match picture, a.shape with
    | true, [n] => rows n 1 a.toList
    | true, [m, n] => rows m n a.toList
    | true, [l, m, n] => do
      return .arr (← (List.range l).mapM fun k => rows m n ((a.toList.drop (k * m * n)).take (m * n)))
    | _, _ => ofArray ofExpr a

def assignmentFromStencil : Answer := do
  let c ← readNames j
  let w ← readArray (readExpr c) (j "stencil")
  let factor ← (j.get? "norm").mapM (readExpr c)
  let source := Transport.valueOf (← readExpr c (j "src"))
  let target := Transport.valueOf (← readExpr c (j "dst"))
  let order ← Order.ofName (strD j "order" "visual")
  return .obj [("assignment", ← ofAssignment (← assignment A w source target factor order))]

/-!
## Questions about derivatives and differences
-/

def schemeOf : String → Outcome Scheme
  | "forth" => .ok .fourthOrder
  | "hd" => .ok .isotropicDense
  | s => Scheme.ofName s

def difference : Answer := do
  let c ← readNames j
  let functions ← optExprs c j "functions"
  let constants ← optExprs c j "constants"
  let e := readExpr c (j "expr")
  let answer := fun r => do return .obj [("expr", ← ofExpr (← r))]
  let formulas := fun width (change : Scheme → Expr → Outcome (Expr → Outcome Expr)) => do
    let f ← readFormulas c j
    let s ← schemeOf (strD j "stencil" "standard")
    return .obj [("expr", ← ofFormula (← f.mapM (← change s (← exprD c j "dx" width))))]
  match strD j "fn" with
  | "combine_diff_products" => do answer (Calculus.combineProducts A (← e))
  | "expand_diff_full" => do answer (Calculus.expandFull A (← e) functions constants)
  | "expand_diff_linear" => do answer (Calculus.expandLinear A (← e) functions constants)
  | "expand_diff_products" => do answer (Calculus.expandProducts A (← e))
  | "normalize_diff_order" => do answer (Calculus.normalizeOrder A (← e) functions constants)
  | "collect_diffs" => do
    let e ← e
    answer (.ok (Collect.along A (outermost e) e))
  | "diff_args" => do
    let (inner, ts) := unnest (← e)
    ofExprs (inner :: ts)
  | "diff_terms" => do return .arr (sorted (← (outermost (← e)).mapM ofExpr))
  | "zero_diffs" => do answer (zeroTarget A (← readExpr c (j "label")) (← e))
  | "evaluate_diffs" => do answer (evaluate A (← (j.get? "var").mapM (readExpr c)) (← e))
  | "laplacian" => do answer (laplacian A ((int? j "dim").map Int.toNat) (← e))
  | "functional_derivative" => do answer (functional A (← e) (← readExpr c (j "var")))
  | "operator_apply" => do answer (applyOperators A (← e) (← readExpr c (j "arg")) (boolD j "to_constants" true))
  | "arg_recursive" => do
    let e ← e
    let changed ← withOperand A (← readExpr c (j "new")) e
    return .obj [("inner", ← ofExpr (unnest e).1), ("changed", ← ofExpr changed)]
  | "latex" => latex j
  | "grad" => do
    let dim := natD j "dim" 3
    match list? j "list" with
    | some xs => do
      let gs ← (← readExprs c xs).mapM (Gradient.of · dim)
      return .arr (← (List.range dim).mapM fun i => ofExprs (gs.map fun g => g.getD i .zero))
    | none => do ofExprs (← Gradient.of (← e) dim)
  | "discretize_spatial" => formulas .one fun s dx => return Spatial.discretize A s dx
  | "staggered" => formulas .one fun s dx => return Spatial.discretizeStaggered A s dx
  | "discretize" => formulas (.symbol "dx") fun s dx => do
    let dt ← exprD c j "dt" (.symbol "dt")
    return fun e => do
      let r ← Transport.discretize A s dx dt e
      if boolD j "expand" then Build.expand A r else return r
  | "diff_discretize" => do answer (Transport.discretizeDerivative A (← exprD c j "dx" (.symbol "dx")) (← e))
  | _ => bad

def gradient : Answer := do
  let c ← readNames j
  let bindings ← (← asList (j "map")).mapM fun
    | .arr [.arr xs, .str f] => do return (⟨← readExprs c xs, ← c.field f⟩ : Gradient.Binding)
    | .arr [x, .str f] => do return ⟨[← readExpr c x], ← c.field f⟩
    | _ => bad
  let dx ← readExpr c (j "dx")
  let dim := natD j "dim" 3
  let r ← match strD j "fn" with
    | "center" => do Gradient.atCenter A (← readExpr c (j "expr")) bindings dx dim
    | "staggered" => do
      Gradient.onFace A (← readExpr c (j "expr")) bindings (intD j "coordinate") (intD j "offset" 1) dx dim
    | _ => do Gradient.divergence A (← readExprs c (← asList (j "list"))) bindings dx
  return .obj [("expr", ← ofExpr (← Build.expand A r))]

def derivationStep (c : Names) (s : WeightProblem × Option WeightedStencil) (m : String) (as : List Json) :
    Outcome ((WeightProblem × Option WeightedStencil) × Json) := do
  let (p, found) := s
  let result := present .noSuchPart found
  let place := fun (r : WeightedStencil) (os : Json) => do
    let f ← GridField.generic "f" (← r.stencil.dimension) .double 0 (.named "numpy") none .generic
    Access.shifted f ((← asInts os).map Expr.lit)
  match m, as with
  | "symmetric", d :: rest => do
    let k ← Layout.place p.dimension (← asInt d)
    return ((← p.assumeSymmetric A k (rest.any asBool), found), .null)
  | "weight", [o, v] => do return ((← p.setWeight (← asInts o) (← readExpr c v), found), .null)
  | "weights", _ => do return (s, ← ofTable (fun d => .ok (ints d)) p.weights)
  | "error_terms", [n] => do return (s, ← ofTable (fun d => .ok (ints d)) (p.errorTerms A (← asInt n).toNat))
  | "stencil", rest => do
    let r ← p.solve A (rest.any asBool)
    return ((p, some r), .obj [("weights", ← ofExprs r.weights), ("accuracy", .int r.accuracy),
      ("isotropic", .bool r.isotropic), ("repr", .str r.description)])
  | "apply", [os] => do
    let r ← result
    return (s, ← ofExpr (← r.apply A (← place r os)))
  | "matrix", _ => do return (s, ← ofRows (← (← result).toRows))
  | "array", _ => do return (s, ← ofArray ofExpr (← (← result).toArray))
  | "rotate", [os, axes] => do
    let r ← result
    return (s, ← ofExpr (← r.applyRotated A (← place r os) (← asInts axes)))
  | _, _ => bad

def weights (fault : Failure → Json) (j : Json) : Answer := do
  let c ← readNames j
  let p ← WeightProblem.create (← asInts (j "derivative")) (← asStencil (j "stencil")) (← exprD c j "dx" .one)
  return runSteps fault (p, none) (← steps j) fun s m as => keeping s (derivationStep c s m as)
end StencilForge.Query
