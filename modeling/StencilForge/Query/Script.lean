import StencilForge.Document.Expr
import StencilForge.Script.Run

/-!
# Questions — scripts

The assignments that a script makes.
-/

namespace StencilForge.Query

open Document

def readScriptValues (c : Names) : Option Json → Outcome (Table String Script.Value)
  | some (.obj ps) => ps.mapM fun (n, v) => match v with
    | .int k => .ok (n, .int k)
    | .float x => .ok (n, .real x)
    | v => do return (n, .expr (← readExpr c v))
  | _ => .ok []

def script (j : Json) : Answer := do
  let c ← readNames j
  let some f := Script.read (strD j "source")
    | raise .general
  let known := c.fields.map (fun f => (f.name, Script.Value.field f)) ++
    [("sp", .library), ("range", .function "range")]
  let globals := (← readScriptValues c (j.get? "globals")).foldl (fun t (n, v) => Table.insert t n v) known
  ofAssignments (← f.assignments A globals (← readScriptValues c (j.get? "kwargs")))

end StencilForge.Query
