import StencilForge.DataArray

/-!
# Boundary — links

A link is a cell with a direction in which a neighbour is marked: from the domain to a boundary (`Link.inner`) or the
other way round (`Link.outer`).  The last coordinate is slowest.
-/

namespace StencilForge

variable (flags : NdArray Int)

structure Link where
  cell : Ints
  direction : Nat
  deriving DecidableEq, Repr

namespace Link

def common (a b : Int) : Int :=
  match a, b with
  | .ofNat m, .ofNat n => .ofNat (m &&& n)
  | a, b => .bmod (.ofNat (((a % 2 ^ 64).toNat) &&& ((b % 2 ^ 64).toNat))) (2 ^ 64)

def meets (word mask : Int) : Bool := common word mask != 0

/-- The word of a cell; negative coordinates count from the end. -/
def word (cell : Ints) : Outcome Int :=
  let shifted : Ints := (cell.zip flags.shape).map fun (i, n) => if i < 0 then i + n else i
  if (shifted.zip flags.shape).any fun (i, n) => i < 0 || i ≥ n then raise .outOfRange
  else present .invalid (flags.get? (shifted.map Int.toNat))

/-- Coordinates between `margin` and the extent less `margin`, the last one slowest. -/
def cells (shape : Nats) (margin : Int) : List Ints :=
  let range := fun (n : Nat) => (List.range ((n : Int) - 2 * margin).toNat).map fun (k : Nat) => k + margin
  (Tuples.product (shape.map range).reverse).map List.reverse

def neighbour (cell direction : Ints) : Ints := .zipWith (· + ·) cell direction

def inside (shape : Nats) (cell : Ints) : Bool := (cell.zip shape).all fun (i, n) => 0 ≤ i && i < n

/-- The outermost `margin` layers have no links. -/
def inner (margin boundary fluid : Int) (stencil : Stencil) : Outcome (List Link) := do
  let found ← (cells flags.shape margin).mapM fun cell => do
    if !meets (← word flags cell) fluid then return []
    let marked ← stencil.zipIdx.filterM fun (d, _) => do return meets (← word flags (neighbour cell d)) boundary
    return marked.map fun (_, i) => .mk cell i
  return found.flatten

/-- Only the first link of each cell if `single`. -/
def outer (boundary fluid : Int) (stencil : Stencil) (single : Bool) :
    Outcome (List Link) := do
  let found ← (cells flags.shape 0).mapM fun cell => do
    if !meets (← word flags cell) boundary then return []
    let marked ← stencil.zipIdx.filterM fun (d, _) => do
      let there := neighbour cell d
      if !inside flags.shape there then return false
      return meets (← word flags there) fluid
    let links := marked.map fun (_, i) => .mk cell i
    return if single then links.take 1 else links
  return found.flatten

structure Search where
  boundary : Int
  fluid : Int
  ghostLayers : Int := 1
  fromInside : Bool := true
  single : Bool := false

def coordinateNames : Strings := ["x", "y", "z"]

/-- Directions are searched in words of 32 bits. -/
def narrow (n : Int) : Outcome Int :=
  if n < -2 ^ 63 || n ≥ 2 ^ 63 then raise .overflow else .ok (Scalar.wrap (.int 32) n)

/-- There are names for three coordinates only. -/
def find (stencil : Stencil) (s : Search) : Outcome (List Link) := do
  if stencil.any fun d => d.length != (stencil.headD []).length then raise .invalid
  let stencil ← stencil.mapM (·.mapM narrow)
  let links ← if s.fromInside then inner flags s.ghostLayers s.boundary s.fluid stencil
    else outer flags s.boundary s.fluid stencil s.single
  if flags.dimensions > coordinateNames.length && !links.isEmpty then raise .invalid
  return links

def entries (l : Link) : Ints := l.cell ++ [(l.direction : Int)]

end Link

/-!
## Boundary — reserved flags

A flag is a bit of a word; the lowest one marks the domain.
-/

structure FlagPool where
  scalar : Scalar := .uint 32
  used : Ints := [1]

namespace FlagPool

def domain : Int := 1

def bits (p : FlagPool) : Nat := p.scalar.size * 8

/-- Of negative numbers the two's complement counts. -/
def isPower : Int → Bool
  | .ofNat 0 => false
  | .ofNat m => m &&& (m - 1) == 0
  | .negSucc _ => false

def toWord (p : FlagPool) (n : Int) : Outcome Int :=
  if n.natAbs ≥ 2 ^ 63 && !(p.scalar == .uint 64 && n < 2 ^ 64) then raise .overflow
  else .ok (p.scalar.wrap n)

def takeNext : Action FlagPool Int := do
  let p ← get
  match ((List.range p.bits).drop 1).map (fun i => p.scalar.wrap (2 ^ i)) |>.find? (!p.used.contains ·) with
  | some f => do
    set { p with used := p.used ++ [f] }
    return f
  | none => raiseWith .invalid s!"All available {p.bits} flags are reserved"

def take (n : Int) : Action FlagPool Int := do
  let p ← get
  if !isPower n then throw (.mk .violated none)
  let f ← p.toWord n
  if p.used.contains f then throw (.mk .invalid (some s!"The flag {f} is already reserved"))
  set { p with used := p.used ++ [f] }
  return f

end FlagPool

end StencilForge
