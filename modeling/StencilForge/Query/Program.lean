import StencilForge.Execution.Call
import StencilForge.Expr.Graph
import StencilForge.Query.Kernel

/-!
# Questions — graphs

The graph of an expression, of a statement or of a kernel.
-/

namespace StencilForge.Query

open Document Graph

variable (j : Json)

/-- Sorted by name; a label stands in front. -/
def readStyle : Json → Outcome (List (String × String))
  | .obj ps => do
    let sorted := ps.mergeSort fun a b => a.1 ≤ b.1
    let first := sorted.filter (·.1 == "label") ++ sorted.filter (·.1 != "label")
    (first.filter fun (_, v) => v != .null).mapM fun (k, v) => match v with
      | .str s => .ok (k, s)
      | _ => raise .mistyped
  | _ => .ok []

def graph : Answer := do
  let short := boolD j "short" true
  let style := j "style"
  let labels := if short then .short A else .full A
  match j.get? "expr", j.get? "node" with
  | some e, _ => do
    let e ← readExpr (← readNames j) e
    let shown := if has j "style" then Literal.ofJson style else "\x7b\x7d"
    return .obj [("dot", .str (Expr.Graph.text A shown e))]
  | none, some n => do
    let (s, _) ← (readStatement n).run { names := ← readNames j }
    let (_, items) := ((ofStatement A labels s).run 0).1
    return .obj [("dot", .str (text (← readStyle style) items))]
  | none, none => do
    let k ← kernelOf j
    let title ← if short then shortTitle k else k.title
    return masked (.obj [("dot", .str (text (← readStyle style) ((ofKernel A labels title k).run 0).1))])

/-!
## Questions — programs around kernels

The text of a benchmark, and the code of a kernel as it is displayed.
-/

def benchmark : Answer := do
  let o := { likwid := boolD j "likwid", openmp := boolD j "openmp", timing := boolD j "timing" }
  return masked (.obj [("code", .str (← Benchmark.program A o (← kernelOf j)))])

def displayedCode : Answer := do
  let k ← kernelOf j
  let text ← Code.kernel A (ownDialect k) k
  return masked (.obj [("html", .str ("<code>" ++ text)), ("displayed", .arr [.str "<style>CSS .highlight</style>"]),
    ("str", .str text), ("repr", .str text)])

/-!
## Questions — running kernels

The answers are the arrays after each call.
-/

open Execution

def readArgument : Argument :=
  match readCell j with
  | .ok (.int n) => .int n
  | .ok (.real x) => .real x
  | _ => .other

def readCall : Json → Table String Argument
  | .obj ps => ps.map fun (n, v) => (n, readArgument v)
  | _ => []

def ofArrays (arrays : Table String DataArray) : Answer := do
  let sorted := arrays.mergeSort fun a b => a.1 ≤ b.1
  return .obj (← sorted.mapM fun (n, a) => do return (n, ← ofDataArray a))

/-- A number hides an array of the same name. -/
def callWith (c : Compiled) (arrays : Table String DataArray) (scalars : Table String Argument) :
    Outcome (Table String DataArray) := do
  let shown := arrays.filter fun (n, _) => (Table.get? scalars n).isNone
  let after ← c.call (shown.map (fun (n, a) => (n, .array a)) ++ scalars)
  return arrays.map fun (n, a) => (n, (Table.get? after n).getD a)

/-- A call that fails leaves the arrays alone. -/
def callAll (fault : Failure → Json) (c : Compiled) : Table String DataArray → List Json → Outcome (List Json)
  | _, [] => .ok []
  | arrays, j :: r => match callWith c arrays (readCall j) with
    | .ok after => do return (← ofArrays after) :: (← callAll fault c after r)
    | .error f => do return fault f :: (← callAll fault c arrays r)

def runKernel (fault : Failure → Json) (j : Json) : Answer := do
  let k ← if has j "index_fields" then indexedKernelOf j else kernelOf j
  let arrays ← readDataArrays (j "arrays")
  let c ← Compiled.ofKernel A k
  let calls := (list? j "calls").getD [.obj []]
  if (j.get? "cache").any (· == .bool true) then
    let after ← callWith c arrays (readCall (calls.headD (.obj [])))
    return .obj [("files", .arr [.arr [.str ".cpp", .str ".o", .str ".so"], .arr []]), ("arrays", ← ofArrays after)]
  else return .obj [("result", .arr (← callAll fault c arrays calls))]

end StencilForge.Query
