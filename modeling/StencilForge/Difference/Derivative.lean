import StencilForge.Expr.Access
import StencilForge.Expr.Differentiate
import StencilForge.Linear

/-!
# Differences — derivatives as nodes

A derivative node has an operand, a target (a coordinate, a variable, or `-1`) and a mark (an order, or `-1`).
Nothing is differentiated when it is built.
-/

open StencilForge.Build

namespace StencilForge.Derivative

variable (A : Algebra)

def make (e target mark : Expr) : Outcome Expr := node A .diff [e, target, mark]

def nested (e : Expr) (targets : Exprs) : Outcome Expr := targets.reverse.foldlM (fun e t => make A e t .negOne) e

def chain : Expr → List (Expr × Expr) × Expr
  | .node .diff [e, t, m] => let (ps, inner) := chain e; ((t, m) :: ps, inner)
  | e => ([], e)

def unnest (e : Expr) : Expr × Exprs := ((chain e).2, (chain e).1.map (·.1))

def outermost (e : Expr) : Exprs := Visit.outermost Expr.isDiff e

def withOperand (new : Expr) : Expr → Outcome Expr
  | .node .diff [e, t, m] => do if e.isDiff then make A (← withOperand new e) t m else make A new t m
  | _ => raise .noSuchPart

def zeroTarget (label e : Expr) : Outcome Expr :=
  Visit.replace A (fun
    | .node .diff [_, t, _] => given (t == label) (.ok .zero)
    | _ => none) e

/-- The order of nested derivatives: by the texts of mark and target. -/
def sortChain (ps : List (Expr × Expr)) : List (Expr × Expr) :=
  let key := fun p => (Text.plain A p.2, Text.plain A p.1)
  ((ps.map fun p => (key p, p)).mergeSort fun a b => a.1.1 < b.1.1 || (a.1.1 == b.1.1 && a.1.2 ≤ b.1.2)).map (·.2)

def ofChain (e : Expr) (ps : List (Expr × Expr)) : Outcome Expr := ps.reverse.foldlM (fun e (t, m) => make A e t m) e

/-- Accesses have no operands. -/
def within (f : Expr → Outcome Expr) : Expr → Outcome Expr
  | .node (.access g n a) as => .ok (.node (.access g n a) as)
  | .node h as => do node A h (Visit.withHidden h as (← as.mapM f))
  | e => .ok e

/-! ### Operators -/

def applyProduct (operand : Expr) (toConstants : Bool) (e : Expr) : Outcome Expr := do
  let fs := e.unitFactors
  let ops := fs.filterMap fun
    | .node .diffOp [t, m] => some (t, m)
    | _ => none
  if ops.isEmpty then return if toConstants then A.mul [e, operand] else e
  let rest := fs.filter fun f => !(f matches .node .diffOp _)
  return A.mul [A.prod rest, ← ofChain A operand (sortChain A ops)]

def applyOperators (e operand : Expr) (toConstants : Bool) : Outcome Expr := do
  let e ← expand A e
  match e with
  | .mul _ | .pow _ _ => applyProduct A operand toConstants e
  | .add ts => A.add <$> ts.mapM (applyProduct A operand toConstants)
  | e => return if toConstants then A.mul [e, operand] else e

/-! ### Evaluation -/

/-- Along their own targets or along one given variable; `fuel` bounds the nesting depth. -/
def evaluateDeep : Nat → Option Expr → Expr → Outcome Expr
  | 0, _, e => .ok e
  | fuel + 1, x, e => match e with
    | .node .diff [inner, t, _] => do
      let x := x.getD t
      let inner ← evaluateDeep fuel (some x) inner
      if x.isSymbol then Differentiate.along A x inner else raise .invalid
    | e => within A (evaluateDeep fuel x) e

def evaluate (x : Option Expr) (e : Expr) : Outcome Expr := evaluateDeep A (e.depth + 1) x e

/-! ### Generic Laplacians -/

/-- Derivatives of derivatives without targets become second derivatives along all coordinates; `fuel` bounds the
nesting depth. -/
def laplacianDeep : Nat → Option Nat → Expr → Outcome Expr
  | 0, _, e => .ok e
  | fuel + 1, dim, e =>
    if e.isDiff then do
      let (inner, ts) := unnest e
      let dim := match inner with
        | .node (.access f ..) _ => some f.spatialDimensions
        | _ => dim
      let some n := dim | raise .violated
      if ts.length = 2 && ts.all Expr.isNegOne then
        let terms ← (List.range n).mapM fun (i : Nat) => nested A inner [.int i, .int i]
        return A.sum terms
      else return e
    else within A (laplacianDeep fuel dim) e

def laplacian (dim : Option Nat) (e : Expr) : Outcome Expr := laplacianDeep A (e.depth + 1) dim e

/-! ### Functional derivatives -/

/-- The equation of Euler and Lagrange. -/
def functional (e v : Expr) : Outcome Expr := do
  let diffs := Visit.all Expr.isDiff e
  let dummies : Table Expr Expr := diffs.zipIdx.map fun (d, i) => (d, .sym ⟨"Dummy_" ++ toString i, .dummy i⟩)
  let bulk ← Substitute.algebraicTable A dummies e
  let inverse := dummies.map fun (d, s) => (s, d)
  let byValue ← Substitute.algebraicTable A inverse (← Differentiate.along A v bulk)
  let parts ← (dummies.filterMap fun (d, s) => match d with
    | .node .diff [x, t, m] => given (x == v) (d, s, t, m)
    | _ => none).mapM fun (d, s, t, m) => do
      let p ← Differentiate.along A s (← Substitute.algebraic A d s e)
      let p ← Substitute.algebraic A s d p
      make A p t m
  return A.sub byValue (A.sum parts)

end StencilForge.Derivative

/-!
## Differences — rules of calculus

Linearity and the product rule, in both directions.  Variables that are no functions of the coordinates come out of a
derivative.
-/

namespace StencilForge.Calculus

open Derivative

variable (A : Algebra) (e : Expr) (functions constants : Option Exprs)

/-- Those given, or all but the constants. -/
def functionsOf : Exprs := functions.getD (e.symbols.filter fun x => !(constants.getD []).contains x)

/-- Constant factors, and the others. -/
def partition (functions : Exprs) (e : Expr) : Expr × Exprs :=
  let (bound, free) := e.unitFactors.partition fun f => functions.contains f || f.isDiff
  (A.prod free, bound)

def sum? (es : Exprs) : Option Expr := if es.isEmpty then none else some (A.sum es)

/-- Nothing in a branch is zero. -/
def inBranches (f : Expr → Outcome (Option Expr)) (bs : Exprs) : Outcome (Option Expr) := do
  let bs ← bs.mapM fun
    | .branch v c => do return .branch ((← f v).getD .zero) c
    | b => .ok b
  return some (← node A .piecewise bs)

/-- Nothing if the derivative vanishes. -/
def splitLinear (functions : Exprs) : Expr → Outcome (Option Expr)
  | .node .diff [e, t, m] => do
    let (constant, variable_) := match e with
      | .mul _ => (partition A functions e).map id A.prod
      | e => (.one, e)
    if variable_.isSymbol && !functions.contains variable_ || variable_.isNumber then return none
    return some (A.mul [constant, ← make A variable_ t m])
  | _ => raise .noSuchPart

/-- Nothing if a derivative vanishes; `fuel` bounds the nesting depth. -/
def linearDeep (functions : Exprs) : Nat → Expr → Outcome (Option Expr)
  | 0, e => .ok (some e)
  | fuel + 1, e => match e with
    | .node .diff [x, t, m] => do
      match ← linearDeep functions fuel x with
      | none => return none
      | some (.add ts) => do
        let parts ← ts.mapM fun a => do splitLinear A functions (← make A a t m)
        return sum? A (parts.filterMap id)
      | some x => do
        let d ← make A x t m
        if d.isZero then return none else splitLinear A functions d
    | .piecewise bs => inBranches A (linearDeep functions fuel) bs
    | e => do
      let e ← within A (fun a => do return (← linearDeep functions fuel a).getD .zero) e
      return some (← expand A e)

def expandLinear : Outcome Expr := do
  return (← linearDeep A (functionsOf e functions constants) (e.depth + 1) e).getD .zero

/-- `fuel` bounds the nesting depth. -/
def orderDeep : Nat → Expr → Outcome Expr
  | 0, e => .ok e
  | fuel + 1, e =>
    if e.isDiff then do
      let (ps, inner) := chain e
      ofChain A (← orderDeep fuel inner) (sortChain A ps)
    else within A (orderDeep fuel) e

/-- An expression that vanishes altogether cannot be treated. -/
def normalizeOrder : Outcome Expr := do
  let e ← expand A e
  match ← linearDeep A (functionsOf e functions constants) (e.depth + 1) e with
  | none => raise .noSuchPart
  | some e => do
    let e ← expand A e
    orderDeep A (e.depth + 1) e

/-- Constants in front; nothing if a derivative vanishes.  `fuel` bounds the nesting depth. -/
def fullDeep (functions : Exprs) : Nat → Expr → Outcome (Option Expr)
  | 0, e => .ok (some e)
  | fuel + 1, e => do
    let e ← expand A e
    match e with
    | .node .diff [x, t, m] => do
      match ← fullDeep functions fuel x with
      | none => raise .noSuchPart
      | some inner =>
        if !(inner.isAdd || inner.isMul) then return some e
        let parts ← inner.terms.mapM fun term => do
          let (free, bound) := partition A functions term
          bound.zipIdx.mapM fun (f, i) => do
            let d ← normalizeOrder A (← make A f t m) none none
            return A.mul [A.mul [free, A.prod (bound.eraseIdx i)], d]
        return sum? A parts.flatten
    | .piecewise bs => inBranches A (fullDeep functions fuel) bs
    | e => return some (← within A (fun a => do return (← fullDeep functions fuel a).getD .zero) e)

def expandFull : Outcome Expr := do
  return (← fullDeep A (functionsOf e functions constants) (3 * e.depth + 10) e).getD .zero

/-- `fuel` bounds the nesting depth. -/
def productsDeep : Nat → Expr → Outcome Expr
  | 0, e => .ok e
  | fuel + 1, e => match e with
    | .node .diff [x, t, m] => do
      let x ← productsDeep fuel x
      match x with
      | .add ts => return A.add (← ts.mapM fun a => make A a t m)
      | .mul _ | .pow _ _ => do
        let fs := x.unitFactors
        let parts ← fs.zipIdx.mapM fun (f, i) => do return A.mul [A.prod (fs.eraseIdx i), ← make A f t m]
        return A.sum parts
      | x => make A x t m
    | e => within A (productsDeep fuel) e

def expandProducts : Outcome Expr := productsDeep A (e.depth + 1) e

/-! ### The product rule backwards -/

structure Split where
  factor : Expr
  operand : Expr

/-- The terms with derivatives, by target and mark, and the sum of the others. -/
def decompose (ts : Exprs) : Table (Expr × Expr) (List Split) × Expr :=
  ts.foldl (fun (groups, rest) t => match t with
    | .node .diff [e, x, m] => (.push groups (x, m) ⟨.one, e⟩, rest)
    | t =>
      let fs := t.unitFactors
      let diffs := fs.filter Expr.isDiff
      let factor := A.prod (fs.filter (!·.isDiff))
      if diffs.isEmpty then (groups, A.add2 rest factor)
      else
        let share := .rat (mkRat 1 diffs.length)
        (diffs.zipIdx.foldl (fun g (d, i) => match d with
          | .node .diff [e, x, m] => .push g (x, m) ⟨A.mul [A.mul [factor, A.prod (diffs.eraseIdx i)], share], e⟩
          | _ => g) groups, rest)) ([], .zero)

/-- The factor that remains when two derivatives are joined; nothing if they do not fit. -/
def join? (own other : Split) : Option Expr :=
  let ownFactor := A.div own.factor other.operand
  let otherFactor := A.div other.factor own.operand
  let count := Count.operations A
  if count ownFactor > count own.factor || count otherFactor > count other.factor then none
  else some (A.sub ownFactor otherFactor)

/-- `fuel` bounds the number of derivatives. -/
def joinAll (target mark : Expr) : Nat → List Split → Outcome Expr
  | _, [] => .ok .zero
  | 0, _ => .ok .zero
  | fuel + 1, s :: rest => do
    let matching := rest.zipIdx.filterMap fun (r, i) => (join? A r s).map fun m => (i, m)
    let best := matching.foldl (fun (b : Option (Int × Nat × Expr)) (i, m) =>
      let c := Count.operations A m
      match b with
      | none => some (c, i, m)
      | some (c0, i0, m0) => if c < c0 then some (c, i, m) else some (c0, i0, m0)) none
    match best with
    | none => do
      let d := A.mul [s.factor, ← make A s.operand target mark]
      return A.add2 d (← joinAll target mark fuel rest)
    | some (_, i, m) => do
      let other := rest.getD i s
      let d ← make A (A.mul [s.operand, other.operand]) target mark
      let d := A.mul [A.div s.factor other.operand, d]
      let rest := if Matrix.isNull m then rest.eraseIdx i else rest.set i { other with factor := A.mul [m, s.operand] }
      return A.add2 d (← joinAll target mark fuel rest)

def hasValue : Expr → Bool
  | .bool _ | .atom (.type _) | .atom (.field _) | .atom (.member _) => false
  | .node (.rel _) _ | .node .and _ | .node .or _ | .node .not _ | .node .branch _ | .node .tuple _ => false
  | _ => true

/-- `fuel` bounds the nesting depth. -/
def combineDeep : Nat → Expr → Outcome Expr
  | 0, e => .ok e
  | fuel + 1, e => do
    require (hasValue e) .noSuchPart
    let e ← expand A e
    match e with
    | .add ts => do
      let (groups, rest) := decompose A ts
      groups.foldlM (fun r ((t, m), ss) => do return A.add2 r (← joinAll A t m (ss.length + 1) ss)) rest
    | e => within A (combineDeep fuel) e

def combineProducts : Outcome Expr := combineDeep A (3 * e.depth + 10) e

end StencilForge.Calculus
