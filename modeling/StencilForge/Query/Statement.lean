import StencilForge.Assignment.Collection
import StencilForge.Query.Kernel

/-!
# Questions — statements

The code of one statement, the types of the symbols of statements, and the order in which statements
can be run.
-/

namespace StencilForge.Query

open Document

variable (j : Json)

def statementCode : Answer := do
  let names ← readNames j
  let (s, _) ← (readStatement (j "node")).run { names }
  let dialect ← readDialect j
  return .obj [("code", .str (← Code.statement A { dialect } s))]

def statementKind : Statement → String
  | .assign .. => "SympyAssignment"
  | .block none _ => "Block"
  | .block (some _) _ => "PragmaBlock"
  | .loop .. => "LoopOverCoordinate"
  | .branch .. => "Conditional"
  | .skip => "SkipIteration"
  | .snippet s => match s.kind with
    | .plain => "CustomCodeNode"
    | .print => "PrintNode"
    | .directions => "BoundaryOffsetInfo"
  | .random r => (match r.generator with
      | .philox => "Philox"
      | .aesni => "AESNI") ++ (if r.single then "FourFloats" else "TwoDoubles")
  | .allocate _ => "TemporaryMemoryAllocation"
  | .release _ => "TemporaryMemoryFree"

def ofTypedStatement : Statement → Answer
  | .assign lhs rhs _ => do return .arr [← ofExpr lhs, ← ofExpr rhs, .bool (Statement.declares lhs)]
  | s => .ok (.str (statementKind s))

def symbolTypes : Answer := do
  let names ← readNames j
  let (body, _) ← (bodyOf j).run { names }
  let types ← readSymbolTypes (some (.str (strD j "data_type" "double"))) body
  let t ← Constraint.run A types (boolD j "check" true) body
  return .obj [("read", sortedNames t.read), ("written", sortedNames t.written),
    ("typed", .arr (← t.body.mapM ofTypedStatement))]

def commonShape : Answer := do
  let fs ← readFields j
  let shape ← Domain.commonShape fs
  let order ← Domain.loopOrder fs
  return .obj [("shape", .arr (← shape.mapM ofExtent)), ("order", ints order)]

def sortStatements : Answer := do
  let names ← readNames j
  let js ← asList (j "nodes")
  let (body, _) ← (readStatements js).run { names }
  let items := (js.zip body).map fun (j, s) => match j, s with
    | .arr (.str ":=" :: _), .assign lhs rhs _ => Ordering.Item.ofAssignment ⟨lhs, rhs⟩
    | _, s => .ofStatement s
  return .arr ((← Ordering.positions items).map nat)

/-!
## Questions — graphics processors

The kernels that continue an array periodically, and the arguments of a launch.
-/

def readCopy : Outcome Gpu.Copy := do
  return { dim := (← asList (j "domain")).length, source := [], destination := []
           indexDimensions := natD j "index_dimensions"
           values := natD j "index_dim_shape" 1
           dtype := ← readElementType j }

def copyKernel : Answer := do
  let c ← readNames j
  let copy ← readCopy j
  let k ← Gpu.copy A { copy with source := ← readSlices c (j "from"), destination := ← readSlices c (j "to") }
  return masked (.obj [("cuda", .str (← Code.kernel A .cuda k)), ("params", ← ofParameters k)])

def gpuPeriodic : Answer := do
  let stencil ← asStencil (j "stencil")
  let ks ← Gpu.periodic A stencil (intD j "ghost_layers" 1) (int? j "thickness") (← readCopy j)
  let codes ← ks.mapM (Code.kernel A .cuda)
  let calls := (List.range ks.length).map fun (i : Nat) => Json.arr [.int i, .arr [.str "pdfs"]]
  return masked (.obj [("kernels", texts codes), ("calls", .arr calls)])

def ofArgument : Gpu.Argument → Json
  | .array t shape => .arr [.str "array", .str t, ints shape]
  | .scalar t v => .arr [.str t, ofCell v]

def readScalars : Json → Outcome (Table String Cell)
  | .obj ps => ps.mapM fun (n, v) => do return (n, ← readCell v)
  | _ => .ok []

def forGpu : Json :=
  let o := match options j with
    | .obj ps => .obj (("target", .str "gpu") :: ps.filter (·.1 != "target"))
    | o => o
  match j with
  | .obj ps => .obj (("opts", o) :: ps.filter (·.1 != "opts"))
  | j => j

def gpuArguments : Answer := do
  let k ← if has j "index_fields" then indexedKernelOf (forGpu j) else kernelOf (forGpu j)
  let given := { arrays := ← readDataArrays (j "arrays"), scalars := ← readScalars (j "scalars") }
  let ps ← k.parameters
  let shape ← Gpu.commonShape ps given
  match k.target with
  | .cpu => bad
  | .gpu t => do
    let launch ← ofLaunch (← t.launch A shape)
    let args ← ps.mapM (Gpu.argument given)
    return .obj [("shape", ints shape), ("launch", launch), ("args", .arr (args.map ofArgument))]

def randomSymbols : Answer := do
  let names ← readNames j
  let (body, r) ← (readStatements ((asList (j "assignments")).toOption.getD [])).run { names }
  let seed := (← (j.get? "seed").mapM (readPosition r.names)).getD RandomDraw.seed
  let n := natD j "n"
  let some (generator, single) := generatorOf (strD j "cls" "PhiloxTwoDoubles")
    | bad
  let (draws, symbols, fresh) ← RandomDraw.symbols generator single (natD j "dim") seed n r.fresh
  let target := Access.center (← r.names.field (strD j "target"))
  let sum := A.sum (symbols.zipIdx.map fun (s, k) => A.mul2 (.num (.ofInt (k + 1))) (.sym s))
  let body := draws.map Statement.random ++ body ++ [Statement.set target sum]
  let o := options j
  checkOptions kernelOptions o
  let k ← Kernel.ofRequest A fresh body (← readRequest r.names o body)
  let types ← symbols.mapM fun s => do
    let some t := s.dtype?
      | bad
    return .arr [.str s.name, ← ofType t]
  return masked (.obj ([("symbols", .arr types), ("repr", texts (draws.map Statement.drawOutline))] ++
    (← describe k j)))

end StencilForge.Query
