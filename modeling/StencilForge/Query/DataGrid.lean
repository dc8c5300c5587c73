import StencilForge.Boundary.Handling
import StencilForge.Query.Boundary
import StencilForge.Query.Field
import StencilForge.Query.Program

/-!
# Questions — data grids

Steps on a grid with arrays, and steps on its boundaries.
-/

namespace StencilForge.Query

open Document BoundaryHandling DataGrid Table

/-! ### Reading options -/

def readPart (j : Option Json) : Outcome (Option Slices) := do
  match j with
  | none | some .null => return none
  | some v => return some (← readSlices {} v)

def readBlockLayers (d : BlockLayers) : Option Json → BlockLayers
  | some (.bool true) => .standard
  | some (.bool false) => .no
  | some (.int n) => .number n
  | some (.str s) => .ofArray s
  | _ => d

def readLayers : Option Json → Layers
  | some (.bool true) => .all
  | some (.int n) => .number n
  | _ => .no

def readValuesPerCell (o : Json) : Outcome Ints :=
  match o.get? "values_per_cell" with
  | some (.int n) => .ok [n]
  | some (.arr ns) => ns.mapM asInt
  | _ => .ok [1]

def readPlan {κ : Type} (g : DataGrid κ) (o : Json) : Outcome ArrayPlan := do
  let values ← readValuesPerCell o
  return { ghostLayers := intD o "ghost_layers" g.ghostLayers, values, layout := strD o "layout" g.layout,
           dtype := ← readElementType o, alignment := alignment o }

def readPlaces (o : Json) : ArrayPlaces := { cpu := boolD o "cpu" true, gpu := boolD o "gpu" }

def readGrid (κ : Type) (j : Json) : Outcome (DataGrid κ) := do
  if boolD j "parallel" then
    raiseWith .invalid "Cannot create parallel data handling because walberla module is not available"
  let size ← asInts (j "domain")
  let periodicity : List Bool := match j.get? "periodicity" with
    | some (.bool true) => size.map fun _ => true
    | some (.arr ps) => ps.map asBool
    | _ => size.map fun _ => false
  return { size, periodicity, ghostLayers := intD j "default_ghost_layers" 1, layout := strD j "default_layout" "SoA" }

/-! ### Answers -/

def ofValues (v : NdArray Cell) : Answer := ofArray (fun c => .ok (ofCell c)) v

def ofGridArray {κ : Type} (g : DataGrid κ) (name : String) : Answer := do ofValues (← g.array name).values

def ofImageData : ImageData → Answer
  | .scalar v => ofValues v
  | .vector vs => .arr <$> vs.mapM ofValues

def ofImage (file : String) (t : Table String ImageData) : Answer := do
  return .arr [.arr [.str file, .obj (← t.mapM fun (n, d) => do return (n, ← ofImageData d))]]

def ofBlock (g : DataGrid Json) (b : Block) (name : String) : Answer := do
  let data ← match ← g.shown b name with
    | .array v => ofValues v
    | .custom v => pure v
  let cells ← b.cells.mapM (ofArray fun n => .ok (.int n))
  let mid ← b.midpoints.mapM (ofArray fun x => .ok (ofFloat x))
  let slices := b.domain.map fun (a, z) => .arr [.str "slice", .int a, .int z, .null]
  return .obj [("offset", ints b.offset), ("shape", ints b.shape), ("global", .arr slices), ("cells", .arr cells),
    ("mid", .arr mid), ("data", data)]

def squeezed (v : NdArray Cell) : NdArray Cell := ⟨v.shape.filter (· != 1), v.data⟩

/-! ### Steps on a grid -/

/-- A grid, and data that exist on a graphics processor too. -/
structure GridState where
  grid : DataGrid Json
  gpu : Table String Json := []
  transfers : Strings := []

def onGrid {α : Type} (a : Action (DataGrid Json) α) : Action GridState α := do
  let s ← get
  let (grid, r) := a.perform s.grid
  set { s with grid }
  r

def readNameList : Json → Outcome Strings
  | .str s => .ok [s]
  | .arr ss => ss.mapM asStr
  | _ => bad

def transfer (s : GridState) (name method : String) : Outcome (List Json) := do
  let one := fun direction n => do
    return .arr [.str direction, ← present .missing (get? s.gpu n), ← present .missing (get? s.grid.custom n)]
  match method with
  | "to_cpu" | "to_gpu" => do return [← one method name]
  | "all_to_cpu" => s.transfers.mapM (one "to_cpu")
  | "all_to_gpu" => s.transfers.mapM (one "to_gpu")
  | _ => bad

def customBoth (name : String) (cpu gpu : Json) (methods : List Json) : Action GridState Json := do
  modify fun s => { s with transfers := if s.transfers.contains name then s.transfers else s.transfers ++ [name] }
  let _ ← onGrid (addCustom name cpu)
  modify fun s => { s with gpu := insert s.gpu name gpu }
  let s ← get
  let log ← (methods.mapM fun m => do transfer s name (← asStr m) : Outcome (List (List Json)))
  return .arr log.flatten

def disturb (changes : List (String × Json)) (extra : Strings) : Action GridState Unit := do
  for (name, change) in changes do
    let a ← (← get).grid.array name
    match change with
    | .null => modify fun s => { s with grid := { s.grid with arrays := s.grid.arrays.filter (·.1 != name) } }
    | .arr ns => do keep name (← asInts (.arr ns)) (-1)
    | v => do
      let c ← readCell v
      onGrid (setValues name (a.values.map fun _ => .ofType a.dtype c))
  for name in extra do
    keep name [2, 2] 0
where
  keep (name : String) (shape : Ints) (x : Float) : Action GridState Unit :=
    let b := { dtype := .double, storage := .dense 8 shape, values := .constant (shape.map Int.toNat) (.real x) }
    modify fun s => { s with grid := { s.grid with arrays := insert s.grid.arrays name b } }

def gridKernel (g : DataGrid Json) (assignments : Json) : Outcome Kernel :=
  kernelOver { fields := g.fields.map (·.2) } (.obj [("assignments", assignments)])

/-- A number must not have the name of an array. -/
def runOnGrid (assignments scalars : Json) : Action GridState Unit := do
  let g := (← get).grid
  let c ← Execution.Compiled.ofKernel A (← gridKernel g assignments)
  let numbers := readCall scalars
  if numbers.any fun (n, _) => (get? g.arrays n).isSome then raise .mistyped
  let arrays ← callWith c g.arrays numbers
  modify fun s => { s with grid := { s.grid with arrays } }

def wordText : Json → String
  | .str s => s
  | .int n => toString n
  | .float x => Double.text x
  | .bool b => if b then "True" else "False"
  | _ => "None"

def gridAction (m : String) (as : List Json) : Action GridState Json := do
  let s ← get
  let g := s.grid
  let options := (as.getLast?.filter fun j => j matches .obj _).getD (.obj [])
  let name := match as.head? with
    | some (.str n) => n
    | _ => ""
  let part := readPart (options.get? "slice_obj")
  let layers := options.get? "ghost_layers"
  let inner := boolD options "inner_ghost_layers"
  match m, as with
  | "add", _ => do
    let f ← onGrid (add name (← readPlan g options) (readPlaces options))
    if !(readPlaces options).cpu then raise .missing
    ofField f
  | "add_like", [_, .str template] => do ofField (← onGrid (addLike name template))
  | "arange", _ => do
    onGrid (enumerate name)
    return .null
  | "fill", _ :: v :: _ => do
    let index ← match options.get? "value_idx" with
      | some (.int n) => pure (some [n])
      | some (.arr ns) => do pure (some (← asInts (.arr ns)))
      | _ => pure none
    onGrid (fill A name (← readCell v) index (← part) (readBlockLayers .no layers) inner)
    ofGridArray (← get).grid name
  | "gather", _ => do
    let v ← g.gather A name (← part) (readLayers layers)
    return .obj [("shape", .arr (v.shape.map nat)), ("values", ← ofValues v), ("writeable", .bool false)]
  | "min", _ | "max", _ => do
    return ofCell (← g.extremumOf A (m == "min") name (← part) (readBlockLayers .no layers) inner)
  | "swap", [_, .str other] => do
    onGrid (swap name other)
    return .null
  | "sync", names :: rest | "sync_cpu", names :: rest => do
    let ns ← readNameList names
    let stencil := match rest with
      | .str s :: _ => some s
      | _ => none
    onGrid (exchange ns stencil)
    let g := (← get).grid
    match m, names with
    | "sync_cpu", .str n => ofGridArray g n
    | _, _ => .arr <$> (ns.mapM (ofGridArray g) : Outcome (List Json))
  | "array", _ => ofGridArray g name
  | "names", _ =>
    return .obj [("arrays", texts (g.fields.map (·.1))), ("custom", texts (g.custom.map (·.1))),
      ("dim", nat g.dim), ("shape", ints g.size), ("periodicity", .arr (g.periodicity.map .bool)),
      ("root", .bool true), ("rank", .int 0)]
  | "field_info", _ => do
    let p ← g.plan name
    return .arr [.int p.ghostLayers, ints p.values, .bool (get? g.fields name).isSome, .bool false]
  | "iterate", _ => do
    let b ← g.block A (← part) (readBlockLayers .standard layers)
    return .arr [← ofBlock g b (strD options "name")]
  | "custom", _ :: v :: rest => do
    if rest.any fun j => !(j matches .null | .int 0 | .bool false) then
      raiseWith .invalid "For GPU data, both transfer functions have to be specified"
    onGrid (addCustom name v)
  | "custom_gpu", [_, c, gp, .arr ms] => customBoth name c gp ms
  | "str", _ => .str <$> g.summary A
  | "reduce", [.arr ns] => do
    let cells ← (ns.mapM readCell : Outcome (List Cell))
    let real := cells.any fun c => c matches .real _
    let row := .arr (cells.map fun c => ofCell (if real then c.convert (.float 64) else c))
    return .arr [row, row]
  | "vtk", .arr names :: .int step :: rest => do
    ofImage (imageFile "out" step) (← g.image (← asStrs (.arr names)) (readLayers rest.head?))
  | "vtk_flags", _ :: .int step :: .arr masks :: rest => do
    let masks ← (masks.foldlM (fun t m => match m with
      | .arr [.int k, .str n] => .ok (insert t k n)
      | _ => bad) [] : Outcome (Table Int String))
    ofImage (imageFile "out" step) (← g.flagImage name masks (readLayers rest.head?))
  | "save_load", .obj changes :: rest => do
    let extra ← match rest with
      | .arr ns :: _ => asStrs (.arr ns)
      | _ => pure []
    let saved := g.arrays
    disturb changes extra
    let text ← onGrid (restore saved)
    return .arr [.str text, ← ofArrays (← get).grid.arrays]
  | "getter", [_, slices] => do
    match slices with
    | .null => raise .noSuchPart
    | v => do
      let ss ← readSlices {} v
      let part ← g.gather A name (some ss) .no
      let written ← ofSlices ss
      return .arr [← ofValues (squeezed part), written, written]
  | "run", assignments :: rest => do
    runOnGrid assignments (rest.headD (.obj []))
    ofArrays (← get).grid.arrays
  | "kwargs", assignments :: rest => do
    let _ ← Execution.Compiled.ofKernel A (← gridKernel g assignments)
    let more := match rest with
      | .obj ps :: _ => ps.map (·.1)
      | _ => []
    let names := unionNew (g.arrays.map (·.1)) more
    return .arr [sortedTexts names]
  | "log", _ :: .str level :: words =>
    let label := level.toUpper
    return .str ("[" ++ label ++ "".pushn ' ' (8 - label.length) ++ "]------(# sec) " ++
      " ".intercalate (words.map wordText) ++ " \n")
  | _, _ => raise .general

def dataGrid (fault : Failure → Json) (j : Json) : Answer := do
  let grid ← readGrid Json j
  return runSteps fault { grid } (← steps j) fun s m as => (gridAction m as).perform s

/-! ### Steps on boundaries -/

def readSubject (bs : List Boundary) : Json → Outcome Subject
  | .str _ => .ok .domain
  | .int n => .boundary <$> present .outOfRange bs[n.toNat]?
  | _ => bad

def readMask (j : Json) : Outcome (List (NdArray Float) → Outcome (NdArray Bool)) := do
  let v := (← readNumber (j "value")).toFloat
  let test ← match strD j "cmp" with
    | "<" => pure fun x => decide (x < v)
    | ">" => pure fun x => decide (x > v)
    | "<=" => pure fun x => decide (x ≤ v)
    | ">=" => pure fun x => decide (x ≥ v)
    | "==" => pure fun x => x == v
    | "!=" => pure fun x => x != v
    | _ => bad
  return fun mids => do return (← present .outOfRange mids[natD j "coord"]?).map test

def ofLinkLists (h : BoundaryHandling) : Json :=
  .arr (h.lists.map fun l =>
    let rows := l.links.zipIdx.map fun (k, i) => .arr (k.entries.map .int ++ (l.values[i]?.map ofFloat).toList)
    .arr [nat ((h.registered.find? (·.boundary.same l.boundary)).elim 0 (·.boundary.id)), texts ((l.boundary.members h.grid.dim).map (·.1)), .arr rows])

def boundaryAction (bs : List Boundary) (m : String) (as : List Json) : Action BoundaryHandling Json := do
  let h ← get
  match m, as with
  | "set", s :: slices :: rest => do
    let o := rest.headD (.obj [])
    let mask ← (o.get? "mask").mapM (readMask ·)
    let flag ← mark A (← readSubject bs s)
      { part := ← readPart (some slices), layers := readBlockLayers .standard (o.get? "ghost_layers")
        replace := boolD o "replace" true, forced := int? o "force_flag_value", mask }
    return ofInt flag
  | "where_flag", [s, .int flag] => do
    match ← readSubject bs s with
    | .boundary b => ofInt <$> markWhere A b flag
    | .domain => raise .general
  | "flag", [s] => do return ofInt (← h.flagOf (← readSubject bs s))
  | "mask", s :: slices :: rest => do
    let v ← h.maskOf A (← readSubject bs s) (← readPart (some slices)) (rest.any asBool)
    ofArray (fun b => .ok (.int (if b then 1 else 0))) v
  | "array", _ => do ofArray (fun n => .ok (ofInt n)) (← h.words)
  | "prepare", _ => do
    prepare
    return ofLinkLists (← get)
  | "reinit", o :: _ => do
    let shift ← match o.get? "shift" with
      | some v => do pure (← readNumber v).toFloat
      | none => pure 0
    refill shift
    return ofLinkLists (← get)
  | "info", _ =>
    return .arr [ints h.grid.size, nat h.grid.dim, texts (h.registered.map (·.boundary.name)), .str h.flagName]
  | "call", _ => do
    apply
    return .arr ((← get).registered.map fun r =>
      .arr [.str r.boundary.name, .arr (r.calls.map sortedTexts)])
  | "fixed", _ => do return .arr ((← fixedCalls).map sortedTexts)
  | "vtk", what :: rest => do
    let subjects ← match what with
      | .str "all" => pure (h.registered.map (fun r => .boundary r.boundary) ++ [.domain])
      | .arr xs => (xs.mapM (readSubject bs) : Outcome (List Subject))
      | x => do pure [← readSubject bs x]
    ofImage (imageFile "geo" 1) (← h.image subjects (readLayers rest.head?))
  | _, _ => raise .general

def boundaryHandling (fault : Failure → Json) (j : Json) : Answer := do
  let size ← asInts (j "domain")
  let grid := { size, periodicity := size.map fun _ => false, ghostLayers := intD j "ghost_layers" 1 }
  let values ← readValuesPerCell j
  let plan := { ghostLayers := grid.ghostLayers, values, layout := grid.layout, dtype := .double }
  let (grid, r) := (add "f" plan).perform grid
  let _ ← r
  let bs ← (← asList (j "boundaries")).zipIdx.mapM fun (b, i) => readBoundary b i
  let handling ← create grid "f" (← asStencil (j "stencil"))
  return runSteps fault handling (← steps j) fun s m as => (boundaryAction bs m as).perform s

end StencilForge.Query
