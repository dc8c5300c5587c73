import StencilForge.DataGrid.Basic

/-!
# Data grids — blocks

A rectangular part of the domain with ghost layers; arrays with as many of them are seen through it at the same cells.
-/

namespace StencilForge

inductive BlockLayers where
  | standard
  | no
  | number (n : Int)
  | ofArray (name : String)

structure BlockRange where
  start : Int
  stop : Int
  step : Int := 1
  deriving Inhabited, Repr, DecidableEq

structure Block where
  layers : Int
  ranges : List BlockRange

variable (b : Block)

namespace Block

/-- Where the block starts; ghost layers below the domain have negative places. -/
def offset : Ints := b.ranges.map (·.start - b.layers)

def shape : Ints := b.ranges.map fun r => r.stop - r.start

def cellsOf {α : Type} (b : Block) (f : Int → α) : List (NdArray α) :=
  let shape := b.shape.map Int.toNat
  b.offset.zipIdx.map fun (o, c) => .ofFn shape fun i => f (o + (i.getD c 0 : Nat))

def cells : List (NdArray Int) := b.cellsOf id

def midpoints : List (NdArray Float) := b.cellsOf fun n => (Number.ofInt n).toFloat + 0.5

def domain : List (Int × Int) := (b.offset.zip b.shape).map fun (o, n) => (o, o + n)

def window (shape : Nats) (own : Int) : Outcome Window := do
  let extra := (own - b.layers).toNat
  let spatial := b.ranges.length
  if shape.length < spatial then raise .outOfRange
  let inner := (shape.take spatial).map fun n => n - 2 * extra
  let slices := b.ranges.map fun r => Slice.range (some (.at (.lit r.start))) (some (.at (.lit r.stop)))
    (some (.at (.lit r.step)))
  let places ← Window.of inner slices
  let shift := fun
    | .one i => Places.one (i + extra)
    | .many is => Places.many (is.map (· + extra))
  return places.map shift ++ (shape.drop spatial).map fun n => Places.many (List.range n)

end Block

namespace DataGrid

variable {κ : Type} (A : Algebra) (g : DataGrid κ) (smallest : Bool) (name : String) (part : Option Slices)
variable (layers : BlockLayers)

def layersOf : BlockLayers → Outcome Int
  | .standard => .ok g.ghostLayers
  | .no => .ok 0
  | .number n => .ok n
  | .ofArray name => do return (← g.plan name).ghostLayers

def rangeOf : Slice.Normal → Outcome BlockRange
  | .point (.lit n) => .ok ⟨n, n + 1, 1⟩
  | .range (.lit a) (.lit b) (.lit s) => .ok ⟨a, b, s⟩
  | _ => raise .mistyped

def block : Outcome Block := do
  let layers ← g.layersOf layers
  let part := part.getD (.replicate g.dim .whole)
  let sizes := g.size.map fun n => Expr.lit (n + 2 * layers)
  let ranges ← (← Slice.normalize A part sizes).mapM rangeOf
  -- every array has to say how many ghost layers it has
  let _ ← g.arrays.mapM fun (name, _) => g.plan name
  return { layers, ranges }

/-- An array with fewer ghost layers is not seen. -/
def windowOf (b : Block) (name : String) : Outcome Window := do
  let a ← g.array name
  let p ← g.plan name
  if p.ghostLayers < b.layers then raise .missing
  b.window a.values.shape p.ghostLayers

def read (b : Block) (name : String) : Outcome (NdArray Cell) := do
  let w ← g.windowOf b name
  return (← g.array name).values.window w

inductive Shown (κ : Type) where
  | array (values : NdArray Cell)
  | custom (value : κ)

def shown (b : Block) (name : String) : Outcome (Shown κ) :=
  match g.read b name with
  | .ok a => .ok (.array a)
  | .error f => match Table.get? g.custom name with
    | some v => .ok (.custom v)
    | none => .error f

/-- The ghost layers of the array if all are wanted. -/
def blockFor
    (inner : Bool) : Outcome Block := do
  let layers ← if layers matches .standard then do pure (.number (← g.plan name).ghostLayers) else pure layers
  let layers ← if inner then do pure (.number (← g.plan name).ghostLayers) else pure layers
  g.block A part layers

def fill (value : Cell) (index : Option Ints) (part : Option Slices)
    (layers : BlockLayers) (inner : Bool) : Action (DataGrid κ) Unit := do
  let g ← get
  let b ← g.blockFor A name part layers inner
  if let some i := index then if i.length != (← g.plan name).values.length then throw ⟨.violated, none⟩
  let w ← g.windowOf b name
  let a ← g.array name
  let w ← match index with
    | none => pure w
    | some i => do
      let own ← (a.values.shape.drop (a.values.dimensions - i.length)).zip i |>.mapM fun (n, k) =>
        Places.ofSlice n (.point (.at (.lit k)))
      pure (w.take (a.values.dimensions - i.length) ++ own)
  let c := Cell.ofType a.dtype value
  setValues name ((NdArray.indices w.shape).foldl (fun v i => v.set (w.index i) c) a.values)

def cellBefore (a b : Cell) : Bool :=
  let less := match a, b with
    | .int m, .int n => m < n
    | .real x, .real y => x < y
    | _, _ => false
  let greater := match a, b with
    | .int m, .int n => m > n
    | .real x, .real y => x > y
    | _, _ => false
  if smallest then less else greater

def isNotANumber : Cell → Bool
  | .real x => x.isNaN
  | _ => false

/-- A value that is not a number decides. -/
def extremum : List Cell → Option Cell
  | [] => none
  | c :: r => some (r.foldl (fun best x =>
    if isNotANumber best then best else if isNotANumber x || cellBefore smallest x best then x else best) c)

def extremumOf (inner : Bool) : Outcome Cell := do
  let b ← g.blockFor A name part layers inner
  present .invalid (extremum smallest (← g.read b name).toList)

end DataGrid

end StencilForge
