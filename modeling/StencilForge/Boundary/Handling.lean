import StencilForge.Boundary.Condition
import StencilForge.DataGrid.Exchange

/-!
# Boundary — conditions on a grid

Flags say which cells of a grid belong to the domain and which to a boundary.  A boundary gets a flag when it is first
set (`BoundaryHandling.mark`); the lists of links are made when they are needed (`BoundaryHandling.prepare`).
-/

namespace StencilForge

open FlagPool

variable (A : Algebra)

namespace BoundaryHandling

structure Registered where
  boundary : Boundary
  flag : Int
  kernel : Kernel
  calls : List Strings := []

structure LinkList where
  boundary : Boundary
  links : List Link
  values : List Float := []

end BoundaryHandling

structure BoundaryHandling where
  grid : DataGrid Unit
  fieldName : String
  flagName : String
  stencil : Stencil
  pool : FlagPool := {}
  registered : List BoundaryHandling.Registered := []
  dirty : Bool := true
  lists : List BoundaryHandling.LinkList := []

namespace BoundaryHandling

variable (h : BoundaryHandling) (b : Boundary)

def flagArrayName : String := "boundary_handlingFlags"

/-- Boundary conditions for a field; all cells belong to the domain. -/
def create (grid : DataGrid Unit) (fieldName : String) (stencil : Stencil) : Outcome BoundaryHandling := do
  require (Table.get? grid.fields fieldName).isSome .violated
  let some first := stencil.head?
    | raise .outOfRange
  requireWith (grid.dim == first.length) .violated "Dimension of stencil and data handling do not match"
  let plan := { ghostLayers := grid.ghostLayers, values := [], layout := grid.layout, dtype := .basic (.uint 32) false }
  let (grid, r) := (DataGrid.add flagArrayName plan).perform grid
  let _ ← r
  let a ← grid.array flagArrayName
  let (grid, _) := (DataGrid.setValues flagArrayName (a.values.map fun _ => .int domain)).perform grid
  return { grid, fieldName, flagName := flagArrayName, stencil }

def find : Outcome Registered := present .missing (h.registered.find? (·.boundary.same b))

def reserve (a : Action FlagPool Int) : Action BoundaryHandling Int := do
  let h ← get
  let (pool, r) := a.perform h.pool
  set { h with pool }
  r

/-- Gives the flag the boundary has: a given one or the next free one. -/
def register (flag : Option Int) : Action BoundaryHandling Int := do
  let h ← get
  match h.registered.find? (·.boundary.same b) with
  | some r => return r.flag
  | none => do
    let list ← b.listField h.grid.dim
    let f ← h.grid.field h.fieldName
    let kernel ← b.kernel A f list h.stencil {}
    let flag ← match flag with
      | some n => pure n
      | none => reserve takeNext
    modify fun h => { h with registered := h.registered ++ [{ boundary := b, flag, kernel }] }
    return flag

inductive Subject where
  | domain
  | boundary (b : Boundary)

structure Marking where
  part : Option Slices := none
  layers : BlockLayers := .standard
  replace : Bool := true
  forced : Option Int := none
  mask : Option (List (NdArray Float) → Outcome (NdArray Bool)) := none

def markWord (replace : Bool) (flag : Int) (word : Int) : Int :=
  if replace then (Scalar.uint 32).wrap flag
  else
    let w := (word % 2 ^ 32).toNat ||| (flag % 2 ^ 32).toNat
    .ofNat (w &&& (2 ^ 32 - 2))

def mark (subject : Subject) (m : Marking) : Action BoundaryHandling Int := do
  let flag ← match subject with
    | .domain => pure domain
    | .boundary b => do
      if let some n := m.forced then
        if n != 0 then let _ ← reserve (take n)
      register A b m.forced
  let h ← get
  let block ← h.grid.block A m.part m.layers
  let w ← h.grid.windowOf block h.flagName
  let chosen ← match m.mask with
    | none => pure none
    | some mask => do pure (some (← mask block.midpoints))
  let a ← h.grid.array h.flagName
  let values := (NdArray.indices w.shape).foldl (fun v i =>
    let here := match chosen with
      | none => true
      | some c => c.getD i false
    match here, v.get? (w.index i) with
    | true, some (.int word) => v.set (w.index i) (.int (markWord m.replace flag word))
    | _, _ => v) a.values
  let (grid, _) := (DataGrid.setValues h.flagName values).perform h.grid
  set { h with grid, dirty := true }
  return flag

def markWhere (flag : Int) : Action BoundaryHandling Int := do
  let _ ← register A b (some flag)
  modify fun h => { h with dirty := true }
  return flag

def words : Outcome (NdArray Int) := do
  return (← h.grid.array h.flagName).values.map fun
    | .int n => n
    | _ => 0

def flagOf : Subject → Outcome Int
  | .domain => .ok domain
  | .boundary b => do return (← h.find b).flag

/-- Where a flag is set, or is not set if `inverse`. -/
def maskOf (s : Subject) (part : Option Slices) (inverse : Bool) :
    Outcome (NdArray Bool) := do
  let flag ← h.flagOf s
  let v ← h.grid.gather A h.flagName part .no
  return v.map fun
    | .int w => Link.meets w flag != inverse
    | _ => inverse

/-! ### Values of links -/

def position (layers : Int) (offset : Ints) (place : Boundary.Position) (coord : Int)
    (l : Link) : Outcome Float := do
  let dim : Int := if h.grid.dim ≥ 3 then 3 else 2
  if coord ≥ dim then raise .violated
  if coord < 0 then raise .missing
  let c := coord.toNat
  let cell := l.cell.getD c 0 + offset.getD c 0 - layers
  let start := (Number.ofInt cell).toFloat + 0.5
  let step := (Number.ofInt ((h.stencil.getD l.direction []).getD c 0)).toFloat
  match place with
  | .start => return start
  | .middle => return start + 0.5 * step
  | .finish => return start + step
  | .none => raise .noSuchPart

def profileValues (p : Boundary.Profile) (shift : Float) (links : List Link) :
    Outcome (List Float) := do
  if p.place == .none then raise .noSuchPart
  let layers := (← h.grid.plan h.flagName).ghostLayers
  let offset := .replicate h.grid.dim (-layers)
  links.mapM fun l => do return p.base + p.slope * (← h.position layers offset p.place p.coord l) + shift

def listOf (r : Registered) : Outcome (Option LinkList) := do
  let layers := (← h.grid.plan h.flagName).ghostLayers
  let links ← Link.find (← h.words) h.stencil
    { boundary := r.flag, fluid := domain, ghostLayers := layers, fromInside := r.boundary.fromInside,
      single := r.boundary.single }
  if links.isEmpty then return none
  if h.grid.dim < 2 then
    let names := ", ".intercalate ((r.boundary.members h.grid.dim).map fun (n, _) => "'" ++ n ++ "'")
    raiseWith .violated s!"({names})"
  match r.boundary.profile? with
  | some p => return some { boundary := r.boundary, links, values := ← h.profileValues p 0 links }
  | none => return some { boundary := r.boundary, links }

def prepare : Action BoundaryHandling Unit := do
  let h ← get
  if h.dirty then
    let lists ← (h.registered.mapM h.listOf : Outcome (List (Option LinkList)))
    set { h with lists := lists.filterMap id, dirty := false }

/-- Fills the values of the links again, moved by `shift`; out of date lists are only made anew. -/
def refill (shift : Float) : Action BoundaryHandling Unit := do
  let h ← get
  if h.dirty then prepare
  else do
    let lists ← h.lists.mapM fun l => l.boundary.profile?.elim (pure l) fun p => do
      return { l with values := ← h.profileValues p shift l.links }
    set { h with lists }

def argumentNames (r : Registered) : Outcome Strings := do
  let pointers := (← r.kernel.parameters).filterMap fun p => if p.kind == .pointer then p.fields.head? else none
  return unionNew [h.fieldName, "indexField"] (pointers.map (·.name))

def apply : Action BoundaryHandling Unit := do
  prepare
  let h ← get
  let registered ← h.registered.mapM fun r => do
    if h.lists.any (·.boundary.same r.boundary) then return { r with calls := r.calls ++ [← h.argumentNames r] }
    else return r
  set { h with registered }

def fixedCalls : Action BoundaryHandling (List Strings) := do
  prepare
  let h ← get
  h.lists.mapM fun l => do h.argumentNames (← h.find l.boundary)

def image (subjects : List Subject) (layers : DataGrid.Layers) :
    Outcome (Table String DataGrid.ImageData) := do
  let masks ← subjects.foldlM (fun (t : Table Int String) s => do
    let label := match s with
      | .domain => "domain"
      | .boundary b => b.name
    return .insert t (← h.flagOf s) label) []
  h.grid.flagImage h.flagName masks layers

end BoundaryHandling

end StencilForge
