import StencilForge.Difference.Spatial
import StencilForge.Expr.Solve

/-!
# Differences — gradients as symbols

A symbol that stands for a field has further symbols for its gradient.  They are replaced by values and differences,
at the centre of a cell or on a face.
-/

open StencilForge.Access List

namespace StencilForge.Gradient

variable (A : Algebra)

structure Binding where
  symbols : Exprs
  field : GridField

def component (x : Expr) (i : Nat) : Outcome Expr :=
  if x.isSymbol then .ok (.symbol s!"{x.symbolName}^Delta^{i}")
  else raise .noSuchPart

def of (x : Expr) (dim : Nat) : Outcome Exprs := (range dim).mapM (component x)

def unit (dim d : Nat) (step : Int) : Ints := (replicate dim 0).set d step

def plus (a b : Ints) : Ints := zipWith (· + ·) a b

def valueAt (f : GridField) (offset : Ints) (i : Nat) : Outcome Expr := do
  value (← shifted f (offset.map .lit)) [.lit i]

def atCenter (e : Expr) (bs : List Binding) (dx : Expr) (dim : Nat) : Outcome Expr := do
  let table ← bs.foldlM (fun (t : Table Expr Expr) b => do
    let xs := b.symbols.zipIdx
    let t ← xs.foldlM (fun t (x, i) => do return .insert t x (← ofField b.field [.lit i])) t
    (range dim).foldlM (fun t d => xs.foldlM (fun t (x, i) => do
      let difference := A.sub (← valueAt b.field (unit dim d 1) i) (← valueAt b.field (unit dim d (-1)) i)
      return .insert t (← component x d) (A.quotient (A.quotient difference dx) (.int 2))) t) t) []
  Substitute.table A table e

def onFace (e : Expr) (bs : List Binding) (coord side : Int) (dx : Expr) (dim : Nat) : Outcome Expr := do
  require (side = 1 || side = -1) .violated
  require (0 ≤ coord && coord < dim) .violated
  let c := coord.toNat
  let face := unit dim c side
  let table ← bs.foldlM (fun (t : Table Expr Expr) b => do
    let xs := b.symbols.zipIdx
    let here := fun (i : Nat) => ofField b.field [.lit i]
    if 3 ≤ c then raise .outOfRange
    let t ← xs.foldlM (fun t (x, i) => do
      let mean := A.quotient (A.add2 (← valueAt b.field face i) (← here i)) (.int 2)
      return .insert t x mean) t
    let t ← xs.foldlM (fun t (x, i) => do
      let slope := A.quotient (A.sub (← valueAt b.field face i) (← here i)) dx
      return .insert t (← component x c) (A.mul [slope, .int side])) t
    (range dim).foldlM (fun t d => if d = c then pure t else xs.foldlM (fun t (x, i) => do
      let up := unit dim d 1
      let down := unit dim d (-1)
      let slope := fun (u v : Ints) => do
        return A.quotient (A.sub (← valueAt b.field u i) (← valueAt b.field v i)) (A.mul [.int 2, dx])
      let sum := A.add2 (← slope up down) (← slope (plus up face) (plus down face))
      if 3 ≤ d then raise .outOfRange
      return .insert t (← component x d) (A.quotient sum (.int 2))) t) t) []
  Substitute.table A table e

def divergence (es : Exprs) (bs : List Binding) (dx : Expr) : Outcome Expr := do
  let parts ← es.zipIdx.mapM fun (e, d) => [(-1 : Int), 1].mapM fun side => do
    return A.mul [.int side, ← onFace A e bs d side dx es.length]
  return A.quotient (A.sum parts.flatten) dx

end StencilForge.Gradient

/-!
## Differences — terms of transport equations

`Transport.discretize` replaces rates of change, flow and diffusion by differences of second order: an equation with
one rate of change becomes one explicit step in time.
-/

namespace StencilForge.Transport

def valueOf : Expr → Expr
  | .atom (.field f) => center f
  | e => e

def term (f : Fn) (role : String) (scalar : Expr) (rest : Exprs) (index : Option Int) : Outcome Expr :=
  let a := valueOf scalar
  if a.isAccess then .ok (.fn f ([a] ++ rest.map valueOf ++ index.toList.map .int))
  else raiseWith .invalid s!"{role} has to be a pystencils Field or Field.Access"

def transient (scalar : Expr) (index : Option Int) : Outcome Expr := term .transient "Scalar" scalar [] index

def advection (scalar velocity : Expr) (index : Option Int) : Outcome Expr :=
  term .advection "Advected scalar" scalar [velocity] index

def diffusion (scalar coefficient : Expr) (index : Option Int) : Outcome Expr :=
  term .diffusion "Diffused scalar" scalar [coefficient] index

variable (A : Algebra)

def scalarAt (f : GridField) (index : Option Expr) (coord : Nat) (step : Int) : Outcome Expr := do
  let i ← match index with
    | none => pure 0
    | some e => match e.int? with
      | some i => pure i
      | none => raise .mistyped
  value (← fieldNeighbor f coord (.lit step)) [.lit i]

def coefficientAt (c : Expr) (coord : Nat) (step : Int) : Outcome Expr :=
  match c with
  | .node (.access f ..) _ => fieldNeighbor f coord (.lit step)
  | c => .ok c

def velocityAt (v : Expr) (coord : Nat) (step : Int) : Outcome Expr :=
  match v with
  | .node (.access f ..) _ => do
    require (f.indexDimensions = 1) .violated
    value (← fieldNeighbor f coord (.lit step)) [.lit coord]
  | _ => raise .mistyped

def diffusionDifference (dx : Expr) (f : GridField) (c : Expr) (index : Option Expr) : Outcome Expr := do
  let product := fun (coord : Nat) step => do return A.mul [← scalarAt f index coord step, ← coefficientAt c coord step]
  let parts ← (range f.spatialDimensions).mapM fun coord => do
    let slope := fun (step : Int) => do return A.mul [.int step, A.sub (← product coord step) (← product 0 0)]
    return A.sub (← slope 1) (← slope (-1))
  return A.quotient (A.sum parts) (A.pow dx (.int 2))

def advectionDifference (dx : Expr) (f : GridField) (v : Expr) (index : Option Expr) : Outcome Expr := do
  let product := fun (coord : Nat) step => do return A.mul [← scalarAt f index coord step, ← velocityAt v coord step]
  let parts ← (range f.spatialDimensions).mapM fun coord => do
    let onFace := fun (step : Int) => do return A.quotient (A.add2 (← product coord step) (← product coord 0)) (.int 2)
    let lower ← onFace (-1)
    return A.sub (← onFace 1) lower
  return A.quotient (A.sum parts) dx

def discretizeSpace (s : Scheme) (dx e : Expr) : Outcome Expr :=
  Visit.replace A (fun e => match e with
    | .fn .diffusion (a :: c :: rest) => a.field?.map fun f => diffusionDifference A dx f c rest.head?
    | .fn .advection (a :: v :: rest) => a.field?.map fun f => advectionDifference A dx f v rest.head?
    | .node .diff _ => some (Spatial.difference A s dx e)
    | _ => none) e

def scalarOf : Expr → Outcome Expr
  | .fn .transient [a] => do return center (← present .noSuchPart a.field?)
  | .fn .transient (a :: i :: _) => match a.field?, i.int? with
    | some f, some k => ofField f [.lit k]
    | none, _ => raise .noSuchPart
    | _, none => raise .mistyped
  | _ => raise .noSuchPart

def listText (es : Exprs) : String := "[" ++ ", ".intercalate (es.map (Text.plain A)) ++ "]"

/-- An equation with a rate of change becomes the value after one step of length `dt`. -/
def discretize (s : Scheme) (dx dt e : Expr) : Outcome Expr := do
  match Visit.all (fun e => e matches .fn .transient _) e with
  | [] => discretizeSpace A s dx e
  | [t] => do
    let found := (← Solve.zeros A t e).getD []
    let [rate] := found | raiseWith .invalid ("Could not solve for transient term" ++ listText A found)
    let scalar ← scalarOf t
    return A.add2 scalar (A.mul [dt, ← discretizeSpace A s dx rate])
  | _ => raiseWith .unsupported "Cannot discretize expression with more than one transient term"

/-- Second derivatives without targets are Laplacians. -/
def discretizeDerivative (dx e : Expr) : Outcome Expr := do
  let near := fun a t step => Scheme.neighbor A a t step
  let curvature := fun a t => do return A.sum [A.mul [.int (-2), a], ← near a t (-1), ← near a t 1]
  match e with
  | .node .diff [.node .diff [inner, t₂, _], t₁, _] => do
    if inner.isDiff then raiseWith .unsupported "Term contains derivatives of order > 2"
    let (some i, some j) := (t₁.int?, t₂.int?) | raise .mistyped
    let (i, j) := (min i j, max i j)
    unless inner.isAccess do raise .noSuchPart
    let total ←
      if i = j && 0 ≤ i then curvature inner (.int i)
      else if i = j then do
        let dim := (inner.field?.map GridField.spatialDimensions).getD 0
        pure (A.sum (← (range dim).mapM fun d => curvature inner (.int d)))
      else do
        require (0 ≤ i) .violated
        pure (A.quotient (A.sum (← Scheme.diagonals A inner (.int i) (.int j))) (.int 4))
    return A.quotient total (A.pow dx (.int 2))
  | .node .diff [a, t, _] => do
    unless a.isAccess do raise .noSuchPart
    return A.quotient (A.sub (← near a t 1) (← near a t (-1))) (A.mul [.int 2, dx])
  | _ => raiseWith .unsupported "Term contains derivatives of order > 2"

end StencilForge.Transport
