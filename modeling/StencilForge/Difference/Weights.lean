import StencilForge.Expr.Access
import StencilForge.Expr.Substitute
import StencilForge.Linear
import StencilForge.NdArray

/-!
# Differences — weights of a stencil

The weights are unknowns; a Taylor expansion gives equations for each order, which are added as long as they can be
fulfilled.  The error can be asked to be the same in all directions.
-/

namespace StencilForge

open Table List

structure WeightProblem where
  dimension : Nat
  derivative : Ints
  stencil : Stencil
  dx : Expr
  weights : Table Ints Expr

structure WeightedStencil where
  stencil : Stencil
  weights : Exprs
  accuracy : Int
  isotropic : Bool

variable (s : WeightedStencil)

namespace WeightProblem

variable (A : Algebra) (p : WeightProblem)

def symbolFor (d : Ints) : Expr := .symbol ("w_(" ++ ",".intercalate (d.map toString) ++ ")")

def create (derivative : Ints) (stencil : Stencil) (dx : Expr) : Outcome WeightProblem := do
  let dimension ← stencil.dimension
  return {
    dimension, stencil, dx
    derivative := derivative.mergeSort (· ≤ ·)
    weights := stencil.foldl (fun t d => insert t d (symbolFor d)) [] }

def assumeSymmetric (coord : Nat) (anti : Bool) : Outcome WeightProblem := do
  let update ← p.weights.filterMapM fun (d, _) => do
    match d[coord]? with
    | none => raise .outOfRange
    | some c =>
      if c < 0 then
        match get? p.weights (d.modify coord (- ·)) with
        | none => raise .missing
        | some w => return some (d, if anti then A.neg w else w)
      else return none
  return { p with weights := update.foldl (fun t (d, w) => insert t d w) p.weights }

def setWeight (d : Ints) (w : Expr) : Outcome WeightProblem := do
  require (get? p.weights d).isSome .violated
  return { p with weights := insert p.weights d w }

def tuples (dim : Nat) : Nat → List Nats
  | 0 => [[]]
  | n + 1 => (range dim).flatMap fun i => (tuples dim n).map (i :: ·)

/-- By the coordinates of the derivative that the terms multiply. -/
def errorTerms (order : Nat) : Table Ints Expr :=
  let fact := Expr.int (Expand.factorial order)
  let terms := p.stencil.foldl (fun t d =>
    let w := (get? p.weights d).getD .zero
    let xs := d.map fun c => A.mul [p.dx, .int c]
    (tuples p.dimension order).foldl (fun t off =>
      let term := A.mul [A.quotient w fact, A.prod (off.map fun k => xs.getD k .zero)]
      alter ((off.map .ofNat).mergeSort (· ≤ ·)) (fun v => A.add2 (v.getD .zero) term) t) t) []
  (get? terms p.derivative).elim terms fun v => insert terms p.derivative (A.sub v .one)

/-- Tuples made by raising all entries round a modulus, sorted, each once. -/
def cycle (modulus : Nat) (t : Ints) : List Ints :=
  let raised : Nat → Ints := fun k => t.map fun c => (c + k) % modulus
  unionNew [] ((range modulus).map fun k => (raised k).mergeSort (· ≤ ·))

def removeAll? : Ints → Ints → Option Ints
  | xs, [] => some xs
  | xs, y :: r => if xs.contains y then removeAll? (xs.erase y) r else none

def isotropy (order : Nat) : Exprs :=
  let errors := errorTerms A p order
  let error := fun t => (get? errors ((t ++ p.derivative).mergeSort (· ≤ ·))).getD .zero
  errors.flatMap fun (t, e) => match removeAll? t p.derivative with
    | none => [e]
    | some rest =>
      match cycle p.dimension rest with
      | [_] => [e]
      | cs => (zip cs (cs.drop 1)).filterMap fun (a, b) =>
        let eq := A.sub (error b) (error a)
        if Matrix.isNull eq then none else some eq

def fulfil : Nat → Nat → LinearSystem → Outcome (LinearSystem × Nat)
  | 0, order, s => .ok (s, order)
  | fuel + 1, order, s => do
    let (t, r) := s.copy.addAll A ((errorTerms A p order).map (·.2))
    let _ ← r
    match ← t.solutionStructure A with
    | .none => return (s, order)
    | _ => fulfil fuel (order + 1) (t.reduce A)

def solve (isotropic : Bool) : Outcome WeightedStencil := do
  let ws := p.stencil.map fun d => (get? p.weights d).getD .zero
  let (s, order) ← fulfil A p (p.derivative.length + p.stencil.length + 1) 0 (LinearSystem.empty (Expr.symbolsList ws))
  let (s, uniform) ← if isotropic then do
      let (t, r) := s.copy.addAll A (isotropy A p order)
      let _ ← r
      match ← t.solutionStructure A with
      | .none => pure (s, false)
      | _ => pure (t.reduce A, true)
    else pure (s, false)
  let some found := s.solution A | raise .invalid
  return {
    stencil := p.stencil
    weights := ← ws.mapM (Substitute.algebraicTable A found)
    accuracy := order - p.derivative.length
    isotropic := uniform }

end WeightProblem

namespace WeightedStencil

variable (A : Algebra) (s : WeightedStencil)

def applyWith (weights : Exprs) (a : Expr) : Outcome Expr := do
  let terms ← (zip s.stencil weights).mapM fun (d, w) => do return A.mul [← Access.move A a (d.map Expr.lit), w]
  return A.sum terms

def apply (a : Expr) : Outcome Expr := s.applyWith A s.weights a

def reach : Nat := s.stencil.foldl (fun m d => d.foldl (fun m c => max m c.natAbs) m) 0

/-- The place of an offset in an array: the second coordinate downward, the first to the right. -/
def place (d : Ints) : Nats :=
  let m : Int := s.reach
  let at_ := fun (k : Nat) => d.getD k 0
  match d.length with
  | 2 => [(m - at_ 1).toNat, (m + at_ 0).toNat]
  | _ => [(m - at_ 1).toNat, (m + at_ 0).toNat, (m + at_ 2).toNat]

def toArray : Outcome (NdArray Expr) := do
  let dim ← s.stencil.dimension
  requireWith (dim = 2 || dim = 3) .violated "Only 2D or 3D matrix representations are available"
  let a := .constant (replicate dim (2 * s.reach + 1)) .zero
  return (zip s.stencil s.weights).foldl (fun a (d, w) => a.set (s.place d) w) a

def toRows : Outcome Matrix := do
  let dim ← s.stencil.dimension
  require (dim = 2) .violated
  let a ← s.toArray
  let n := 2 * s.reach + 1
  return (range n).map fun i => (range n).map fun j => a.getD [i, j] .zero

def axis (dim : Nat) (k : Int) : Outcome Nat :=
  let j := if k < 0 then k + dim else k
  if 0 ≤ j && j < dim then .ok j.toNat else raise .invalid

def applyRotated (a : Expr) (axes : Ints) : Outcome Expr := do
  let dim ← s.stencil.dimension
  requireWith (dim = 2 || dim = 3) .violated "This function is only for 2D or 3D stencils available"
  let w ← s.toArray
  let [p, q] := axes | raise .invalid
  let p ← axis dim p
  let q ← axis dim q
  if p = q then raise .invalid
  let turned := w.rotate p q
  s.applyWith A (s.stencil.map fun d => turned.getD (s.place d) .zero) a

def description : String :=
  s!"Finite difference stencil of accuracy {s.accuracy}, isotropic error: " ++ (if s.isotropic then "True" else "False")

end WeightedStencil

end StencilForge
