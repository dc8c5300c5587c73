import StencilForge.Expr.Standard

/-!
# Expr — field accesses

An element of a field relative to the current cell: an offset for each spatial coordinate, and an index.  Where they
are all integers, an index outside the known shape is refused.
-/

namespace StencilForge.Access

variable (f : GridField) (a : Expr) (offsets : Exprs) (index : Exprs)

/-- Positions that are known: integers and names of members. -/
def isKnown (e : Expr) : Bool := e.int?.isSome || e.isMember

def checkBounds : Exprs → List Extent → Outcome Unit
  | i :: is, n :: ns => do
    match i.int?, n.int? with
    | some i, some n => if i ≥ n then raiseWith .invalid "Field index out of bounds"
    | none, _ => raise .mistyped
    | _, none => pure ()
    checkBounds is ns
  | _, _ => .ok ()

def firstIndex : Exprs := .replicate f.indexDimensions (.lit 0)

def make (index : Option Exprs) (absolute : Bool := false) :
    Outcome Expr := do
  let known := (offsets ++ index.getD []).all isKnown
  let idx := match index with
    | some (i :: is) => i :: is
    | _ => firstIndex f
  if known then
    if f.indexDimensions = 1 && idx.isEmpty then raise .outOfRange
    if f.hasFixedIndexShape && !f.dtype.isRecord then checkBounds idx f.indexShape
  return .node (.access f offsets.length absolute) (offsets ++ idx)

def center : Expr :=
  .node (.access f f.spatialDimensions false) (.replicate f.spatialDimensions (.lit 0) ++ firstIndex f)

def shifted : Outcome Expr := do
  if offsets.length != f.spatialDimensions then
    raiseWith .invalid s!"Wrong number of spatial indices: Got {offsets.length}, expected {f.spatialDimensions}"
  make f offsets none

def value : Outcome Expr :=
  match a.field? with
  | none => raise .mistyped
  | some f => do
    if a.index.length != f.indexDimensions || a.index.any (·.int? != some 0) then
      raiseWith .invalid "Indexing an already indexed Field.Access"
    let index := match index with
      | [i] => if f.indexDimensions = 0 && i.int? == some 0 then [] else index
      | _ => index
    if index.length != f.indexDimensions then
      raiseWith .invalid s!"Wrong number of indices: Got {index.length}, expected {f.indexDimensions}"
    make f a.offsets (some index)

def ofField : Outcome Expr := value (center f) index

def absolute (index : Option Exprs) : Outcome Expr := do
  require (f.kind == .custom) .violated
  make f offsets index true

variable (A : Algebra)

def addPosition (a b : Expr) : Expr :=
  match a, b with
  | .lit m, .lit n => .lit (m + n)
  | a, b => A.add [a.ofPosition, b.ofPosition]

def neighbor (a : Expr) (coord : Int) (step : Expr) : Outcome Expr :=
  match a.field? with
  | none => raise .noSuchPart
  | some f => do
    let k ← Layout.place a.offsets.length coord
    make f (a.offsets.modify k (addPosition A · step)) (some a.index)

def fieldNeighbor (coord : Int) (step : Expr) : Outcome Expr := do
  let k ← Layout.place f.spatialDimensions coord
  make f ((List.replicate f.spatialDimensions (.lit 0)).set k step) none

def move (a : Expr) (shift : Exprs) : Outcome Expr :=
  match a.field? with
  | none => raise .noSuchPart
  | some f => make f (.zipWith (addPosition A) shift a.offsets) (some a.index)

def atIndex : Outcome Expr :=
  match a.field? with
  | none => raise .noSuchPart
  | some f => make f a.offsets (some index)

def centerRows : Outcome (Option (List Exprs)) :=
  let count := fun x => match x.int? with
    | some n => .ok n.toNat
    | none => raise .mistyped
  match f.indexShape with
  | [] => .ok (some [[center f]])
  | [n] => do
    let n ← count n
    return some (← (List.range n).mapM fun (i : Nat) => do return [← ofField f [.lit i]])
  | [m, n] => do
    let m ← count m
    let n ← count n
    return some (← (List.range m).mapM fun (i : Nat) => (List.range n).mapM fun (j : Nat) => ofField f [.lit i, .lit j])
  | _ => .ok none

def isPlain : Bool := a.offsets.all (·.int?.isSome)

def reach : Nat := (a.offsets.filterMap Expr.int?).foldl (fun m o => max m o.natAbs) 0

mutual

def all : Expr → Exprs
  | .atom _ => []
  | .node h as => match h with
    | .access .. => [.node h as]
    | _ => allList as

def allList : Exprs → Exprs
  | [] => []
  | a :: as => unionNew (all a) (allList as)

end

def indirectFields : Fields := unionNew [] ((allList (a.offsets ++ a.index)).filterMap Expr.field?)

end StencilForge.Access
