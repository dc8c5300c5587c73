import StencilForge.Expr.Algebra

/-!
# Slices

A single place or a range of one coordinate, counted from the start, from the end if negative, or as a fraction of the
extent.  `Slice.normalize` counts all from the start.
-/

namespace StencilForge

variable (A : Algebra)

namespace Slice

inductive Bound where
  | at (e : Expr)
  | relative (x : Float)

end Slice

inductive Slice where
  | missing
  | point (b : Slice.Bound)
  | range (start stop step : Option Slice.Bound)

abbrev Slices := List Slice

namespace Slice

/-- A range between plain integers; `none` is an open end. -/
def between (start stop : Option Int) : Slice :=
  .range (start.map fun n => .at (.lit n)) (stop.map fun n => .at (.lit n)) none

def whole : Slice := .range none none none

def truncate (x : Float) : Outcome Int :=
  if x.isNaN then raise .invalid
  else if x.isInf then raise .overflow
  else
    let n := (Number.ofFloat x.abs).floor?.getD 0
    .ok (if x < 0 then -n else n)

def fraction (x : Float) (size : Expr) : Outcome Int := do
  truncate (x * (Number.ofInt (← present .mistyped size.int?)).toFloat)

def fromEnd (size : Expr) (n : Int) : Expr :=
  match size with
  | .lit m => .lit (m + n)
  | e => A.add [e, .int n]

def Bound.normalize (size : Expr) : Bound → Outcome Expr
  | .relative x => do return .lit (← fraction x size)
  | .at (.lit n) => .ok (if n < 0 then fromEnd A size n else .lit n)
  | .at e => .ok e

inductive Normal where
  | point (e : Expr)
  | range (start stop step : Expr)
  deriving Inhabited

/-- A single place has to be a number. -/
def normalizeOne (size : Expr) : Slice → Outcome Normal
  | .point (.at (.lit n)) => do return .point (← (Bound.at (.lit n)).normalize A size)
  | .point (.relative x) => do return .point (← (Bound.relative x).normalize A size)
  | .range start stop step => do
    let start ← match start with
      | some b => b.normalize A size
      | none => pure (.lit 0)
    let stop ← match stop with
      | some b => b.normalize A size
      | none => pure size
    let step ← match step with
      | some (.at e) => pure e
      | some (.relative x) => pure (.num (.ofFloat x))
      | none => pure (.lit 1)
    return .range start stop step
  | _ => raise .violated

def normalize (ss : Slices) (sizes : Exprs) : Outcome (List Normal) := do
  if ss.length != sizes.length then raiseWith .invalid "Slice dimension does not match sizes"
  (ss.zip sizes).mapM fun (s, n) => normalizeOne A n s

def Normal.toSlice : Normal → Slice
  | .point e => .point (.at e)
  | .range a b c => .range (some (.at a)) (some (.at b)) (some (.at c))

/-- A place moved by an offset; fractions stay. -/
def Bound.shift (offset : Int) : Bound → Outcome Bound
  | .at (.lit n) => .ok (.at (.lit (n + offset)))
  | .at (.bool b) => .ok (.at (.lit ((if b then 1 else 0) + offset)))
  | .relative x => .ok (.relative x)
  | .at _ => raise .invalid

def shift (offset : Int) : Slice → Outcome Slice
  | .missing => .ok .missing
  | .point b => do return .point (← b.shift offset)
  | .range start stop step => do
    return .range (← start.mapM (Bound.shift offset)) (← stop.mapM (Bound.shift offset)) step

/-- Named by compass directions: `W`/`E`, `S`/`N`, `B`/`T`. -/
def ofDirection (name : String) (dim : Nat) (normal tangential : Int) : Outcome Slices := do
  let letters := name.toList
  let along := if tangential = 0 then whole else between (some tangential) (some (-tangential))
  let place := fun ss k n => do
    if dim ≤ k then raise .outOfRange
    return ss.set k (.point (.at (.lit n)))
  [(0, 'W', 'E'), (1, 'S', 'N'), (2, 'B', 'T')].foldlM (fun ss (k, low, high) => do
    let isLow := letters.contains low
    let isHigh := letters.contains high
    requireWith (!(isLow && isHigh)) .violated "Invalid direction name"
    if isLow then place ss k normal
    else if isHigh then place ss k (-1 - normal)
    else return ss) (.replicate dim along)

/-! ### Layers at the border of an array -/

def openEnd (n : Int) : Option Int := if n = 0 then none else some n

def alongBorder (ghostLayers : Int) (full : Bool) : Slice :=
  let g := if full then 0 else ghostLayers
  between (some g) (openEnd (-g))

def badDirection {α : Type} : Outcome α := raiseWith .invalid "Invalid direction: only -1, 0, 1 components are allowed"

def thicknessOr (ghostLayers : Int) : Option Int → Int
  | some t => if t = 0 then ghostLayers else t
  | none => ghostLayers

def beforeGhost (d : Ints) (ghostLayers : Int) (thickness : Option Int) (full : Bool) : Outcome Slices :=
  let t := thicknessOr ghostLayers thickness
  d.mapM fun c =>
    if c = -1 then .ok (between (some ghostLayers) (some (t + ghostLayers)))
    else if c = 0 then .ok (alongBorder ghostLayers full)
    else if c = 1 then .ok (between (openEnd (-t - ghostLayers)) (openEnd (-ghostLayers)))
    else badDirection

def ghostRegion (d : Ints) (ghostLayers : Int) (thickness : Option Int) (full : Bool) : Outcome Slices := do
  let t := thicknessOr ghostLayers thickness
  require (t > 0) .violated
  require (t ≤ ghostLayers) .violated
  d.mapM fun c =>
    if c = -1 then .ok (between (some (ghostLayers - t)) (some ghostLayers))
    else if c = 0 then .ok (alongBorder ghostLayers full)
    else if c = 1 then .ok (between (openEnd (-ghostLayers)) (openEnd (-ghostLayers + t)))
    else badDirection

/-- The layers to copy from and the ghost layers to copy to, for each direction. -/
def periodic (stencil : List Ints) (ghostLayers : Int) (thickness : Option Int) :
    Outcome (List (Slices × Slices)) :=
  (stencil.filter fun d => d.any (· != 0)).mapM fun d => do
    return (← beforeGhost (d.map (-·)) ghostLayers thickness false, ← ghostRegion d ghostLayers thickness false)

/-! ### Intersection -/

def Bound.value? : Bound → Option Number
  | .at e => e.int?.map .ofInt
  | .relative x => some (.ofFloat x)

/-- A single place is a range of length one. -/
def ends : Slice → Outcome (Option Bound × Option Bound)
  | .range a b _ => .ok (a, b)
  | .point (.at (.lit n)) => .ok (some (.at (.lit n)), some (.at (.lit (n + 1))))
  | .point (.at (.bool b)) =>
    let n := if b then 1 else 0
    .ok (some (.at (.bool b)), some (.at (.lit (n + 1))))
  | _ => raise .noSuchPart

/-- The first of equal ones. -/
def outer (greater : Bool) (a b : Option Bound) : Outcome Bound := do
  match a, b with
  | some a, some b => match a.value?, b.value? with
    | some x, some y => return if (if greater then x.lt y else y.lt x) then b else a
    | _, _ => raise .mistyped
  | _, _ => raise .mistyped

/-- `none` if they are apart along a coordinate. -/
def intersection (xs ys : Slices) : Outcome (Option Slices) := do
  let pairs := xs.zip ys
  let starts ← pairs.mapM fun (x, y) => do outer true (← ends x).1 (← ends y).1
  let stops ← pairs.mapM fun (x, y) => do outer false (← ends x).2 (← ends y).2
  let apart := (starts.zip stops).any fun (a, b) => match a.value?, b.value? with
    | some x, some y => y.lt x
    | _, _ => false
  return if apart then none else some ((starts.zip stops).map fun (a, b) => .range (some a) (some b) none)

end Slice

end StencilForge
