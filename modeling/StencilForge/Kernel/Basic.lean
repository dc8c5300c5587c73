import StencilForge.Code.Dialect
import StencilForge.Gpu.Threads

/-!
# Kernel — kernels

The parameters of a kernel are the symbols that its body uses and does not define.
-/

namespace StencilForge

open Statement

inductive Target where
  | cpu
  | gpu (threads : Threads)

structure Kernel where
  name : String := "kernel"
  body : Body
  bundled : Bool := false
  target : Target := .cpu
  ghostLayers : Domain.GhostLayers := .automatic
  globals : Exprs := []
  vectors : Option InstructionSet := none
  /-- The arrays of such a kernel are checked by the size of their elements only. -/
  isCut : Bool := false
  lists : Strings := []
  fresh : Nat := 0

namespace Kernel

inductive ParameterKind where
  | pointer | shape | stride | scalar
  deriving DecidableEq, Repr

structure Parameter where
  symbol : Symbol
  fields : Fields

def Parameter.kind (p : Parameter) : ParameterKind :=
  match p.symbol.kind with
  | .pointer .. => .pointer
  | .shape .. => .shape
  | .stride .. => .stride
  | _ => .scalar

def elements (k : Kernel) : Exprs := collectList (Visit.all (·.isResolved)) k.body

/-- Those that hold the cells to visit are known as lists. -/
def fields (k : Kernel) : Fields :=
  (unionNew [] (k.elements.filterMap Expr.field?)).map fun f =>
    if k.lists.contains f.name then { f with kind := .indexed } else f

def fieldsWritten (k : Kernel) : Fields :=
  unionNew [] ((assignmentsList k.body).filterMap fun (l, _) => if l.isResolved then l.field? else none)

def fieldNames (s : Symbol) : Strings :=
  match s.kind with
  | .pointer f _ | .stride f _ => [f]
  | .shape fs _ => fs
  | _ => []

def launchSymbols (k : Kernel) : Exprs :=
  match k.target with
  | .gpu t => t.parameters
  | .cpu => []

def bundledSymbols (k : Kernel) : Exprs :=
  (free k.body).filter fun
    | .sym s => !(fieldNames s).isEmpty
    | _ => false

def bundles (k : Kernel) : Outcome Exprs := do
  let fs := k.fields
  let names := unionNew [] (k.bundledSymbols.filterMap fun
    | .sym s => (fieldNames s).head?
    | _ => none)
  names.mapM fun n => match fs.find? (·.name == n) with
    | some f => do
      let t := s!"PyStencilsField<{← f.dtype.cName}, {f.dimensions}>&"
      return .typedSymbol n (.written t)
    | none => raise .missing

def needs (k : Kernel) : Outcome Exprs := do
  let free := free k.body
  if k.bundled then return unionNew (← k.bundles) (without free k.bundledSymbols)
  else return free

def parameters (k : Kernel) : Outcome (List Parameter) := do
  let fs := k.fields
  let one := fun
    | .sym s => do
      let own ← (fieldNames s).mapM fun n => match fs.find? (·.name == n) with
        | some f => .ok f
        | none => raise .missing
      return ({ symbol := s, fields := own } : Parameter)
    | e => return { symbol := (match e.field? with
        | some f => .typed e.accessName f.dtype
        | none => ⟨e.accessName, .plain⟩), fields := [] }
  let ps ← (without (← k.needs) k.globals).mapM one
  let launch ← k.launchSymbols.mapM one
  return (ps ++ launch).mergeSort fun a b => a.symbol.name ≤ b.symbol.name

end Kernel

end StencilForge
