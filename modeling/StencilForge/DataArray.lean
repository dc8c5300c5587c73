import StencilForge.NdArray.Window

/-!
# Arrays of data

The values are kept in index order; their places in memory only matter to compiled code.
-/

namespace StencilForge

open NdArray

inductive Cell where
  | int (n : Int)
  | real (x : Float)
  | record (cs : List Cell)
  deriving Inhabited, Repr

/-- Higher bits are dropped. -/
def Scalar.wrap (s : Scalar) (n : Int) : Int :=
  match s with
  | .int b => .bmod n (2 ^ b)
  | .uint b => n % (2 ^ b : Nat)
  | _ => n

def Cell.convert (s : Scalar) (c : Cell) : Cell :=
  match s, c with
  | .float 32, .int n => .real (Number.ofInt n).toFloat.toFloat32.toFloat
  | .float 32, .real x => .real x.toFloat32.toFloat
  | .float _, .int n => .real (Number.ofInt n).toFloat
  | .bool, .int n => .int (if n = 0 then 0 else 1)
  | .bool, .real x => .int (if x == 0 then 0 else 1)
  | .int _, .int n | .uint _, .int n => .int (s.wrap n)
  | .int _, .real x | .uint _, .real x =>
    let n := (Number.ofFloat x.abs).floor?.getD 0
    .int (s.wrap (if x < 0 then -n else n))
  | _, c => c

def Cell.ofType (t : DataType) (c : Cell) : Cell :=
  match t, c with
  | .basic s _, c => c.convert s
  | .record ms .., .record cs => .record (.zipWith (fun m c => c.convert m.scalar) ms cs)
  | .record ms .., c => .record (ms.map fun m => c.convert m.scalar)
  | _, c => c

structure DataArray where
  dtype : DataType
  storage : Storage
  values : NdArray Cell

namespace DataArray

def itemSize (a : DataArray) : Int := GridField.elementSize a.dtype

def shape (a : DataArray) : Ints := a.storage.shape

/-- A single number has a comma behind it. -/
def tupleText : Ints → String
  | [n] => s!"({n},)"
  | ns => "(" ++ ", ".intercalate (ns.map fun n => toString n) ++ ")"

end DataArray

/-!
## Arrays with hidden values

Values hidden by a mask take no part in least and greatest values; a calculation hides what it cannot compute.
-/

def Cell.toFloat : Cell → Float
  | .int n => (Number.ofInt n).toFloat
  | .real x => x
  | .record _ => 0

structure MaskedArray where
  values : NdArray Cell
  mask : Option (NdArray Bool) := none

variable (a : MaskedArray)

namespace MaskedArray

def shape : Nats := a.values.shape

def hides (i : Nats) : Bool :=
  match a.mask with
  | some m => m.getD i false
  | none => false

def number (i : Nats) : Float := (a.values.getD i (.int 0)).toFloat

def swap : Outcome MaskedArray :=
  let n := a.shape.length
  if n < 2 then raise .badAxis
  else
    let axes := swapped n 0 1
    .ok ⟨a.values.transpose axes, a.mask.map (·.transpose axes)⟩

def part (ss : Slices) : Outcome MaskedArray := do
  let w ← Window.of a.shape ss
  return ⟨a.values.window w, a.mask.map (·.window w)⟩

def atLast (k : Nat) : Outcome MaskedArray := a.part (.replicate (a.shape.length - 1) .whole ++ [.point (.at (.lit k))])

def ofFloats (a : NdArray Float) (mask : Option (NdArray Bool)) : MaskedArray := ⟨a.map .real, mask⟩

def shown : List Float := (indices a.shape).filterMap fun i => if a.hides i then none else some (a.number i)

/-- Nothing is less than what is no number. -/
def least : List Float → Option Float
  | [] => none
  | x :: r => some (r.foldl (fun m y => if m.isNaN then m else if y.isNaN || y < m then y else m) x)

def greatest : List Float → Option Float
  | [] => none
  | x :: r => some (r.foldl (fun m y => if m.isNaN then m else if y.isNaN || m < y then y else m) x)

def hidden : MaskedArray := { a with mask := some (constant a.shape true) }

def mapFloats (f : Float → Float) (a : MaskedArray) : MaskedArray := { a with values := a.values.map fun c => .real (f c.toFloat) }

def norms : Outcome (NdArray Float) :=
  if a.shape.length < 3 then raise .badAxis
  else
    let n := a.shape.getD 2 0
    .ok (ofFn (a.shape.eraseIdx 2) fun i =>
      let squares := (List.range n).map fun k => let x := a.number (i.insertIdx 2 k); x * x
      match squares with
      | [] => 0
      | x :: r => (r.foldl (· + ·) x).sqrt)

def firstMask : Option (NdArray Bool) := a.mask.map fun m => ofFn m.shape.dropLast fun i => m.getD (i ++ [0]) false

def scaled : Outcome MaskedArray := do
  let lengths := ofFloats (← a.norms) a.firstMask
  if (volume lengths.shape) = 0 then raise .invalid
  match a.mask, greatest lengths.shown with
  | none, some m => return a.mapFloats (· / m)
  | _, none => return a.hidden
  | some _, some m => return if m == 0 then a.hidden else a.mapFloats (· / m)

def bounds : Outcome (Option (Float × Float)) := do
  if volume a.shape = 0 then raise .invalid
  return do return (← least a.shown, ← greatest a.shown)

def stretched : Outcome MaskedArray := do
  match a.mask, ← a.bounds with
  | none, some (lo, hi) => return a.mapFloats fun x => (x - lo) / (hi - lo)
  | _, none => return a.hidden
  | some _, some (lo, hi) => return if hi - lo == 0 then a.hidden else a.mapFloats fun x => (x - lo) / (hi - lo)

/-- Stretched to the range from 0 to 1; hidden values stay. -/
def stretchedNumbers : Outcome (NdArray Float) := do
  let b ← a.bounds
  return ofFn a.shape fun i =>
    let x := a.number i
    match a.mask, b with
    | none, some (lo, hi) => (x - lo) / (hi - lo)
    | _, none => x
    | some _, some (lo, hi) => if a.hides i then x else if hi - lo == 0 then 0 else (x - lo) / (hi - lo)

def clippedNumbers : NdArray Float :=
  a.values.map fun c => let x := c.toFloat; if x < 0 then 0 else if x > 1 then 1 else x

end MaskedArray

end StencilForge
