import StencilForge.DataArray

/-!
# Data grids

A rectangular domain with arrays, each with one value or several in every cell and perhaps ghost layers; beside each
array stands the field that describes it to kernels.  `DataGrid.add` makes both.
-/

namespace StencilForge

open Table

structure ArrayPlan where
  ghostLayers : Int
  values : Ints
  layout : String
  dtype : DataType
  alignment : Option Int := none
  deriving Inhabited

structure DataGrid (κ : Type) where
  size : Ints
  periodicity : List Bool
  ghostLayers : Int := 1
  layout : String := "SoA"
  plans : Table String ArrayPlan := []
  arrays : Table String DataArray := []
  fields : Table String GridField := []
  custom : Table String κ := []

structure ArrayPlaces where
  cpu : Bool := true
  gpu : Bool := false

namespace DataGrid

variable {κ : Type} (g : DataGrid κ) (name : String) (p : ArrayPlan)

def dim : Nat := g.size.length

def entry {α : Type} (t : Table String α) (name : String) : Outcome α :=
  match get? t name with
  | some a => .ok a
  | none => raise .missing

def plan : Outcome ArrayPlan := entry g.plans name

def array : Outcome DataArray := entry g.arrays name

def field : Outcome GridField := entry g.fields name

def setValues (values : NdArray Cell) : Action (DataGrid κ) Unit :=
  modify fun g => match get? g.arrays name with
    | some a => { g with arrays := insert g.arrays name { a with values } }
    | none => g

def fullShape : Ints := g.size.map (· + 2 * p.ghostLayers) ++ p.values

def coordinateOrder : Outcome Ints :=
  if p.values.isEmpty then Layout.spatialOfName p.layout g.dim
  else Layout.ofName p.layout (g.dim + p.values.length)

def blank : Outcome DataArray := do
  let shape := g.fullShape p
  let order ← g.coordinateOrder p
  if shape.any (· < 0) then raise .invalid
  let storage ← Storage.withLayout (GridField.elementSize p.dtype) shape order p.alignment
  let zero := .ofType p.dtype (.int 0)
  return { dtype := p.dtype, storage, values := NdArray.constant (shape.map Int.toNat) zero }

def normalValues (vs : Ints) : Ints := if vs == [1] then [] else vs

/-- The plan is kept even if the array is refused. -/
def add (places : ArrayPlaces := {}) : Action (DataGrid κ) GridField := do
  let p := { p with values := normalValues p.values }
  modify fun g => { g with plans := insert g.plans name p }
  let g ← get
  let a ← g.blank p
  if p.alignment.isSome && places.gpu then throw ⟨.unsupported, some "Alignment for GPU fields not supported"⟩
  if places.cpu then
    if (get? g.arrays name).isSome then throw ⟨.invalid, some "CPU Field with this name already exists"⟩
    modify fun g => { g with arrays := insert g.arrays name a }
  -- there is no graphics processor to put arrays on
  if places.gpu then throw ⟨.noSuchPart, none⟩
  if (get? g.fields name).isSome then throw ⟨.violated, some "Symbolic field with this name already exists"⟩
  let f ← GridField.ofStorage name a.storage p.dtype p.values.length
  modify fun g => { g with fields := insert g.fields name f }
  return f

def addLike (name template : String) : Action (DataGrid κ) GridField := do add name (← (← get).plan template)

/-- With the plan's own number of ghost layers if `none`. -/
def withLayers (layers : Option Int) : Outcome DataArray := do
  let p ← g.plan name
  let remove := match layers with
    | some n => p.ghostLayers - n
    | none => 0
  let a ← g.array name
  return { a with values := ← a.values.removeGhostLayers p.values.length remove }

inductive Layers where
  | no
  | all
  | number (n : Int)

/-- The places of a slice counted from the start, a single place as a range of length one. -/
def Slice.asRange : Slice.Normal → Slice
  | .point (.lit n) => .between (some n) (some (n + 1))
  | s => s.toSlice

def gather (A : Algebra) (g : DataGrid κ) (name : String) (part : Option Slices) (layers : Layers) :
    Outcome (NdArray Cell) := do
  let p ← g.plan name
  let remove := match layers with
    | .no => p.ghostLayers
    | .all => 0
    | .number n => p.ghostLayers - n
  let a ← g.array name
  let f ← g.field name
  let values ← a.values.removeGhostLayers f.indexDimensions remove
  match part with
  | none => return values
  | some ss => do
    let n := f.spatialDimensions
    let sizes := (values.shape.take n).map fun (k : Nat) => Expr.lit k
    let spatial ← Slice.normalize A (ss.take n) sizes
    return values.window (← Window.of values.shape (spatial.map Slice.asRange ++ ss.drop n))

def swap (a b : String) : Action (DataGrid κ) Unit := do
  let g ← get
  let x ← g.array b
  let y ← g.array a
  set { g with arrays := insert (insert g.arrays a x) b y }

def enumerate : Action (DataGrid κ) Unit := do
  let a ← (← get).array name
  let n := NdArray.volume a.values.shape
  setValues name ⟨a.values.shape, ((List.range n).map fun (k : Nat) => Cell.ofType a.dtype (.int k)).toArray⟩

def addCustom (value : κ) : Action (DataGrid κ) κ := do
  let g ← get
  if (get? g.custom name).isSome then throw ⟨.violated, none⟩
  if (get? g.arrays name).isSome then throw ⟨.violated, none⟩
  set { g with custom := insert g.custom name value }
  return value

end DataGrid

end StencilForge
