import StencilForge.DataArray
import StencilForge.Kernel.Create

/-!
# GPU — kernels

Every thread finds the coordinates of its cell, and threads without a cell do nothing.
-/

namespace StencilForge.Gpu

variable (A : Algebra)

inductive Scheme where
  | blocks (size : Exprs) (permute compiledIn : Bool) (maximum : Ints)
  | lines

def Scheme.standard : Scheme := .blocks [.lit 16, .lit 16, .lit 1] true false [1024, 1024, 64]

def Scheme.threads (f : GridField) (slice : Slices) : Scheme → Outcome Threads
  | .blocks size permute compiledIn maximum => Threads.ofBlocks A f slice size permute compiledIn maximum
  | .lines => Threads.ofLines A f slice

def sliceOf (ghost : List (Int × Int)) (dim : Nat) : Outcome Slices := do
  if ghost.length < dim then raise .outOfRange
  return (ghost.take dim).map fun (low, high) =>
    .range (some (.at (.lit low))) (if high > 0 then some (.at (.lit (-high))) else none) none

/-- Only the innermost group stays in the position. -/
def pointerGroups (fs : Fields) : Outcome (Table String (List Ints)) :=
  fs.mapM fun f => do
    return (f.name, ← BasePointer.groups [[.word "spatialInner0"]] [2, 1, 0] f.spatialDimensions f.indexDimensions)

def defineCounters (coordinates : Exprs) (body : Body) : Outcome Body := do
  let coordinate := fun
    | .sym s => Counter.coordinate? s
    | _ => .ok none
  (Statement.free body).foldlM (fun body e => do
    match ← coordinate e with
    | some i => match coordinates[i.toNat]? with
      | some c => return .set e c :: body
      | none => raise .outOfRange
    | none => return body) body

def create (fresh : Nat) (body : Body) (o : Kernel.Options)
    (scheme : Outcome Scheme) : Outcome Kernel := do
  let typed ← Constraint.run A o.types (!o.unchecked) body
  let dense := typed.fields.filter (!Buffer.isBuffer ·)
  let accesses := Statement.accesses typed.body
  let common ← Domain.commonShape dense
  let dim := common.length
  let (slice, ghost) ← match o.slice with
    | some s => pure (s, o.ghost)
    | none => do
      let g ← o.ghost.resolve accesses dim
      pure (← sliceOf g dim, .each g)
  let first := dense.headD default
  let threads ← (← scheme).threads A first slice
  let coordinates ← threads.coordinates A
  let counters := (List.range coordinates.length).map fun (i : Nat) => Expr.sym (Counter.symbol i)
  let body := (counters.zip coordinates).map (fun (c, e) => Statement.set c e) ++ typed.body
  let body ← threads.guard A body (common.map Domain.bound)
  let body ← Statement.replaceList A (← Domain.extentNames common dense) body
  let groups ← pointerGroups typed.fields
  let body ← if typed.fields.any Buffer.isBuffer
    then do
      let place ← Buffer.position A (Buffer.valuesPerCell body) coordinates (first.shape.map Expr.ofExtent)
      Buffer.resolve A typed.readOnly place body
    else pure body
  let plan := { readOnly := typed.readOnly, groups, fixed := typed.fields.map fun f => (f.name, counters) }
  let body ← Address.resolve A plan body
  let body ← defineCounters coordinates body
  return { body, target := .gpu threads, ghostLayers := ghost, globals := Threads.known, fresh }

/-!
## GPU — copies between parts of an array

`Gpu.copy` copies one part of an array to another of the same size, as ghost layers are filled.
-/

structure Copy where
  dim : Nat
  source : Slices
  destination : Slices
  indexDimensions : Nat := 0
  values : Nat := 1
  dtype : DataType := .double

/-- Of plain integers it is one again. -/
def distance (a b : Expr) : Expr :=
  match a, b with
  | .lit m, .lit n => .lit (m - n)
  | a, b => A.sub a.ofPosition b.ofPosition

def rangeEnds : Slice.Normal → Outcome (Expr × Expr)
  | .range a b _ => .ok (a, b)
  | .point _ => raise .noSuchPart

def Copy.assignments (c : Copy) : Outcome Body := do
  if c.indexDimensions > 1 then raiseWith .unsupported "Works only for one or zero index coordinates"
  let f ← GridField.generic "pdfs" c.dim c.dtype c.indexDimensions (.named "numpy") none .generic
  let extents := f.spatialShape.map Expr.ofExtent
  let source ← (← Slice.normalize A c.source extents).mapM rangeEnds
  let destination ← (← Slice.normalize A c.destination extents).mapM rangeEnds
  let offsets := (source.zip destination).map fun (s, d) => distance A s.1 d.1
  let ends := (source.zip destination).map fun (s, d) => distance A s.2 d.2
  requireWith (offsets == ends) .violated "Slices have to have same size"
  (List.range c.values).mapM fun (i : Nat) => do
    let there ← Access.make f offsets none
    return Statement.set (← Access.ofField f [.lit i]) (← Access.value there [.lit i])

def copy (c : Copy) : Outcome Kernel := do
  let body ← c.assignments A
  let options : Kernel.Options := { types := .ofDefault "double" body, slice := some c.destination, unchecked := true }
  create A 0 body options (.ok .standard)

def periodic (stencil : List Ints) (ghostLayers : Int) (thickness : Option Int) (c : Copy) :
    Outcome (List Kernel) := do
  (← Slice.periodic stencil ghostLayers thickness).mapM fun (source, destination) =>
    copy A { c with source, destination }

/-!
## GPU — arguments of a launch

Arrays have to fit the fields of a kernel; their common shape decides how many threads are started.
-/

structure Given where
  arrays : Table String DataArray
  scalars : Table String Cell

inductive Argument where
  | array (dtype : String) (shape : Ints)
  | scalar (dtype : String) (value : Cell)

def Given.array (g : Given) (name : String) : Outcome DataArray :=
  match Table.get? g.arrays name with
  | some a => .ok a
  | none => raise .missing

def spatialPart (f : GridField) (xs : Ints) : Ints := if f.dtype.isRecord then xs.dropLast else xs

def checkArray (f : GridField) (a : DataArray) : Outcome Unit := do
  if f.hasFixedShape then
    let shape := f.shape.filterMap Extent.int?
    if spatialPart f shape != a.shape then
      raiseWith .invalid (s!"Passed array '{f.name}' has shape " ++ DataArray.tupleText a.shape ++
        " which does not match expected shape " ++ DataArray.tupleText shape)
    let strides := spatialPart f ((f.strides.filterMap Extent.int?).map (· * a.itemSize))
    if strides != a.storage.strides then
      raiseWith .invalid (s!"Passed array '{f.name}' has strides " ++
        DataArray.tupleText a.storage.strides ++ " which does not match expected strides " ++
        DataArray.tupleText strides)

def commonShape (ps : List Kernel.Parameter) (g : Given) : Outcome Ints := do
  let pointers := ps.filterMap fun p => if p.kind == .pointer then p.fields.head? else none
  let shapes ← pointers.mapM fun f => do
    let some a := Table.get? g.arrays f.name
      | raiseWith .missing s!"'Missing field parameter for kernel call {f.name}'"
    checkArray f a
    return (f.kind, a.shape.take f.spatialDimensions)
  let of := fun k => (unionNew [] ((shapes.filter (·.1 == k)).map (·.2)) : List Ints)
  if (of .generic).length > 1 || (of .indexed).length > 1 then raise .invalid
  match of .indexed, of .generic with
  | s :: _, _ => return s
  | [], s :: _ => return s
  | [], [] => raise .outOfRange

def convert (s : Scalar) (c : Cell) : Outcome Cell :=
  match s, c with
  | .float _, .int n => .ok (.real (Number.ofInt n).toFloat)
  | .float _, .real x => .ok (.real x)
  | .int _, .real x | .uint _, .real x => do return .int (← Slice.truncate x)
  | .int _, .int n | .uint _, .int n => .ok (.int n)
  | _, c => .ok c

def argument (g : Given) (p : Kernel.Parameter) : Outcome Argument := do
  let f := p.fields.headD default
  let some t := p.symbol.dtype?
    | raise .noSuchPart
  match p.symbol.kind with
  | .pointer .. => do
    let a ← g.array f.name
    let want ← f.dtype.description
    let got ← a.dtype.description
    if want != got then
      let text := s!"Data type mismatch for field '{f.name}'. Expected '{want}' got '{got}'."
      if text.toList.contains '\x7b' then raise .invalid else raiseWith .invalid text
    return .array got a.shape
  | .stride _ i => do
    let a ← g.array f.name
    let some s := a.storage.strides[i]?
      | raise .outOfRange
    return .scalar (← t.description) (.int (.fdiv s a.itemSize))
  | .shape _ i => do
    let a ← g.array f.name
    let some n := a.shape[i]?
      | raise .outOfRange
    return .scalar (← t.description) (.int n)
  | _ => do
    let some v := Table.get? g.scalars p.symbol.name
      | raise .missing
    match t.scalar? with
    | some s => return .scalar (← t.description) (← convert s v)
    | none => raise .noSuchPart

end StencilForge.Gpu
