import StencilForge.Gpu.Create

/-!
# Kernel — kernels on lists of cells

Coordinates stand in an array of records with the members `x`, `y` and `z`, and perhaps further values.
-/

namespace StencilForge.Indexed

def coordinateNames : Strings := ["x", "y", "z"]

structure Coordinate where
  symbol : Expr
  value : Expr

def coordinate (lists : Fields) (name : String) : Outcome Coordinate := do
  match lists with
  | [] => raiseWith .invalid s!"Index {name} not found in any of the passed index fields"
  | f :: r => match f.dtype with
    | .record ms .. => match ms.find? (·.name == name) with
      | some m => do
        let a ← Access.value (← Access.shifted f [.lit 0]) [.atom (.member name)]
        return ⟨.typedSymbol name (.basic m.scalar false), a⟩
      | none => coordinate r name
    | _ => raiseWith .violated "Index fields have to have a struct data type"

structure Cells where
  typed : Constraint.Typed
  coordinates : List Coordinate
  dense : Fields

def Cells.body (c : Cells) : Body := c.coordinates.map (fun x => .set x.symbol x.value) ++ c.typed.body

def Cells.fixed (c : Cells) : Table String Exprs := c.dense.map fun f => (f.name, c.coordinates.map (·.symbol))

structure Options where
  types : SymbolTypes
  lists : Fields
  names : Strings := coordinateNames

def cells (A : Algebra) (o : Options) (body : Body) : Outcome Cells := do
  let typed ← Constraint.run A o.types false body
  if o.lists.any fun f => f.spatialDimensions != 1 then raiseWith .violated "Index fields have to be 1D"
  let dense := typed.fields.filter fun f => !o.lists.contains f
  let [dim] := unionNew [] (dense.map (·.spatialDimensions))
    | raiseWith .violated "Non-index fields do not have the same number of spatial coordinates"
  let coordinates ← (o.names.take dim).mapM (coordinate o.lists)
  return { typed, coordinates, dense }

def create (A : Algebra) (fresh : Nat) (o : Options) (body : Body) : Outcome Kernel := do
  let c ← cells A o body
  let stop := Domain.bound ((o.lists.headD default).shape.headD (.known 0))
  let loop := .loop { coord := 0, start := .lit 0, stop } c.body
  let body ← Address.resolve A { readOnly := c.typed.readOnly, fixed := c.fixed } [loop]
  let (body, fresh) ← Motion.moveConstants A fresh body
  return { body, fresh, lists := o.lists.map (·.name) }

def createGpu (A : Algebra) (fresh : Nat) (o : Options) (body : Body) (scheme : Outcome Gpu.Scheme) :
    Outcome Kernel := do
  let c ← cells A o body
  let first := o.lists.headD default
  let threads ← (← scheme).threads A first (.replicate first.spatialDimensions .whole)
  let body ← threads.guard A c.body ((← Domain.commonShape o.lists).map Domain.bound)
  let coordinates ← threads.coordinates A
  let groups ← Gpu.pointerGroups c.typed.fields
  let plan := { readOnly := c.typed.readOnly, groups, fixed := o.lists.map (fun f => (f.name, coordinates)) ++ c.fixed }
  let body ← Address.resolve A plan body
  return { body, target := .gpu threads, globals := Threads.known, fresh, lists := o.lists.map (·.name) }

end StencilForge.Indexed
