import StencilForge.Code.Program
import StencilForge.Execution.Program

/-!
# Execution — calls

`Compiled.bind` checks the arguments in the order of the parameters: each has to be there and of the right kind; an
array has to have the element type and, where they are fixed, the shape and the strides of its field; the others have
to be equally large.
-/

namespace StencilForge.Execution

inductive Argument where
  | array (a : DataArray)
  | int (n : Int)
  | real (x : Float)
  | other

structure Compiled where
  kernel : Kernel
  parameters : List Kernel.Parameter
  program : List Step

variable (c : Compiled) (given : Table String Argument)

namespace Compiled

def ofKernel (A : Algebra) (k : Kernel) : Outcome Compiled := do
  match k.target with
  | .gpu _ => raise .absent
  | .cpu => do
    let _ ← Binding.moduleText A {} "module" "kernel" k
    return { kernel := k, parameters := ← k.parameters, program := ← Program.ofKernel A k }

/-! ### Arguments -/

def refuseUnless (b : Bool) : Outcome Unit := require b .invalid

def letter : DataType → String
  | .basic (.complex _) _ => "Z"
  | .basic s _ => Binding.formatLetter s
  | _ => "T"

/-- The element type counts if `typed`, the shape if it is fixed. -/
def checkArray (typed : Bool) (f : GridField) (a : DataArray) : Outcome Unit := do
  match f.dtype with
  | .basic s _ => if typed && f.kind == .generic then refuseUnless (letter a.dtype == Binding.formatLetter s)
  | _ => pure ()
  let size := GridField.elementSize f.dtype
  refuseUnless (a.itemSize == size)
  if f.hasFixedShape then
    let shape := f.spatialShape.map Binding.knownExtent
    let strides := f.spatialStrides.map fun n => Binding.knownExtent n * size
    refuseUnless ((shape.zipIdx).all fun (n, i) => a.shape.getD i 0 == n)
    refuseUnless ((strides.zipIdx).all fun (n, i) => a.storage.strides.getD i 0 == n || a.shape.getD i 0 ≤ 1)

def checkRange (s : Scalar) (n : Int) : Outcome Unit :=
  let (lo, hi) := if s.isUInt then (0, 2 ^ 64) else (-2 ^ 63, 2 ^ 63)
  require (lo ≤ n && n < hi) .overflow

def readScalar (t : DataType) (a : Argument) : Outcome (Value Float) := do
  let R := .machine
  match t, a with
  | .basic (.float b) _, .int n =>
    let x := R.ofRat false n
    require (!x.isInf) .overflow
    return .convert R (.float b) (.real x)
  | .basic (.float b) _, .real x => return .convert R (.float b) (.real x)
  | .basic s _, .int n => do
    checkRange s n
    return .whole (s.wrap n)
  | _, _ => raise .mistyped

def fetch (name : String) : Outcome Argument :=
  present .mistyped (Table.get? given name)

def arrayOf (name : String) : Outcome DataArray := do
  match ← fetch given name with
  | .array a => return a
  | _ => raise .mistyped

def value (p : Kernel.Parameter) : Outcome (Value Float) := do
  let f := p.fields.headD default
  match p.symbol.kind with
  | .pointer .. => do
    let a ← arrayOf given f.name
    checkArray (!c.kernel.isCut) f a
    return .address f.name 0
  | .stride _ i => do
    let a ← arrayOf given f.name
    return .whole (Int.tdiv (a.storage.strides.getD i 0) (GridField.elementSize f.dtype))
  | .shape _ i => do
    let a ← arrayOf given f.name
    return .whole (a.shape.getD i 0)
  | _ => do readScalar (p.symbol.dtype?.getD .double) (← fetch given p.symbol.name)

def checkSameShape : Fields → Outcome Unit
  | [] => .ok ()
  | f :: fs => do
    let first ← arrayOf given f.name
    let dim := f.spatialDimensions
    fs.forM fun g => do
      let a ← arrayOf given g.name
      require (a.shape.take dim == first.shape.take dim) .mistyped

def bind : Outcome (Variables Float) := do
  if given.isEmpty then raise .mistyped
  let vs ← c.parameters.mapM fun p => do return (p.symbol.name, ← c.value given p)
  let sized := fun k => (c.parameters.filterMap fun p => match p.kind with
    | .pointer => p.fields.head?
    | _ => none).filter fun f => !f.hasFixedShape && f.kind == k
  checkSameShape given (sized .generic)
  checkSameShape given (sized .indexed)
  return vs

/-! ### Running -/

def ofCell : Cell → Value Float
  | .int n => .whole n
  | .real x => .real x
  | .record _ => .whole 0

def toCell : Value Float → Cell
  | .whole n => .int n
  | .real x => .real x
  | _ => .int 0

/-- Gives the arrays as the kernel leaves them. -/
def call : Outcome (Table String DataArray) := do
  let locals ← c.bind given
  let arrays := given.filterMap fun (n, a) => match a with
    | .array a => some (n, a)
    | _ => none
  let memory : Memory Float := arrays.map fun (n, a) => (n, .ofArray ofCell a)
  let (s, r) := (Step.runAll Arithmetic.machine c.program).perform { memory, locals }
  let _ ← r
  return arrays.map fun (n, a) => match Table.get? s.memory n with
    | some l => (n, l.toArray toCell a)
    | none => (n, a)

end Compiled

end StencilForge.Execution
