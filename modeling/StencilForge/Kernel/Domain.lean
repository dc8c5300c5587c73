import StencilForge.Kernel.Statement
import StencilForge.Slice

/-!
# Kernel — the cells that a kernel visits

The fields have one shape; loops go over all cells that are not ghost layers, or over a slice.
-/

namespace StencilForge.Domain

variable (fs : Fields)

def loopOrder : Outcome Ints := do
  let f :: r := fs
    | raise .violated
  if r.any fun g => g.spatialDimensions != f.spatialDimensions then raise .invalid
  if r.any fun g => g.layout != f.layout then raise .invalid
  return f.layout

def mixedShapes : String :=
  let names := fun p => ",".intercalate ((fs.filter p).map (·.name))
  "Mixing fixed-shaped and variable-shape fields in a single kernel is not possible\nVariable shaped: " ++
    names (!·.hasFixedShape) ++ " \nFixed shaped:    " ++ names (·.hasFixedShape)

/-- Of several shapes that are not known, the one with the first name stands for all. -/
def commonShape : Outcome (List Extent) := do
  let fixed := fs.filter (·.hasFixedShape)
  if !fixed.isEmpty && fixed.length != fs.length then raiseWith .invalid (mixedShapes fs)
  let shapes := unionNew [] (fs.map (·.spatialShape))
  if fixed.length = fs.length && shapes.length != 1 then raise .invalid
  if shapes.any (·.isEmpty) then raise .outOfRange
  let key := fun s => (s.head?.map Extent.symbolName).getD ""
  return ((shapes.mergeSort fun a b => key a ≤ key b).head?).getD []

def extentNames (common : List Extent) (fs : Fields) : Outcome (Table Expr Expr) :=
  fs.foldlM (fun t f => do
    require (f.spatialShape.length == common.length) .violated
    if f.hasFixedShape then return t
    return (f.spatialShape.zip common).foldl (fun t (own, c) =>
      if own == c then t else .insert t (.ofExtent own) (.ofExtent c)) t) []

/-- Known extents are plain integers. -/
def bound : Extent → Expr
  | .known n => .lit n
  | x => .ofExtent x

def boundPlus (A : Algebra) (e : Expr) (n : Int) : Expr := Slice.fromEnd A e n

inductive GhostLayers where
  | automatic
  | uniform (n : Int)
  | each (ps : List (Int × Int))

/-- A position that is not a number has none. -/
def reach (a : Expr) : Outcome Int :=
  a.offsets.foldlM (fun m o => match o with
    | .lit n => .ok (max m n.natAbs)
    | .num n => match n.abs.floor? with
      | some k => .ok (max m k)
      | none => raise .mistyped
    | _ => raise .mistyped) 0

def GhostLayers.resolve (accesses : Exprs) (dim : Nat) : GhostLayers → Outcome (List (Int × Int))
  | automatic => do
    let r :: rs ← accesses.mapM reach
      | raise .invalid
    let g := rs.foldl max r
    return .replicate dim (g, g)
  | uniform n => .ok (.replicate dim (n, n))
  | each ps => .ok ps

def layersAlong (ghost : List (Int × Int)) (coord : Int) : Outcome (Int × Int) := do
  return ghost.getD (← Layout.place ghost.length coord) (0, 0)

/-- Or fixes the coordinate. -/
def addLoop (A : Algebra) (shape : Exprs) (ghost : List (Int × Int)) (slices : Option (List Slice.Normal))
    (body : Body) (coord : Int) : Outcome Body := do
  match slices with
  | none => do
    let (low, high) ← layersAlong ghost coord
    let stop := boundPlus A (shape.getD coord.toNat (.lit 0)) (-high)
    return [.loop { coord, start := .lit low, stop } body]
  | some ss => match ss[coord.toNat]? with
    | some (.range start stop step) => return [.loop { coord, start, stop, step } body]
    | some (.point e) => return .set (.sym (Counter.symbol coord)) e.ofPosition :: body
    | none => raise .outOfRange

/-- Gives the loops and the ghost layers that were left out. -/
def loops (A : Algebra) (body : Body) (order : Ints) (slice : Option Slices)
    (ghost : GhostLayers) : Outcome (Body × List (Int × Int)) := do
  let accesses := (Statement.accesses body).filter (!·.isAbsolute)
  let fs := unionNew [] ((accesses.filterMap Expr.field?).filter (·.kind != .buffer))
  let common ← commonShape fs
  let body ← Statement.replaceList A (← extentNames common fs) body
  let shape := common.map bound
  let slices ← slice.mapM fun ss => Slice.normalize A ss shape
  let ghost ← ghost.resolve accesses order.length
  let loops ← order.reverse.foldlM (addLoop A shape ghost slices) body
  return (loops, ghost)

end StencilForge.Domain
