import StencilForge.Boundary.Condition
import StencilForge.Query.Kernel
import StencilForge.TimeLoop

/-!
# Questions — boundaries

Lists of links, reserved flags and the kernels of boundary conditions.
-/

namespace StencilForge.Query

open Document

variable (j : Json)

def readNumber : Json → Outcome Number
  | .int n => .ok (.ofInt n)
  | .float x => .ok (.ofFloat x)
  | .arr [.str "float", .str s] => .ofFloat <$> readFloat s
  | _ => bad

def readPosition? : String → Boundary.Position
  | "non_boundary_cell_positions" => .start
  | "link_positions" => .middle
  | "boundary_cell_positions" => .finish
  | _ => .none

def readPrescribed : Json → Outcome Boundary.Prescribed
  | .arr ns => match ns with
    | .str "float" :: _ => .number <$> readNumber (.arr ns)
    | ns => .numbers <$> ns.mapM readNumber
  | .obj ps => do
    let j := .obj ps
    let real := fun k => do return (← readNumber (field j k)).toFloat
    return .profile { base := ← real "base", slope := ← real "slope", place := readPosition? (strD j "at"),
                      coord := intD j "coord" }
  | j => .number <$> readNumber j

def readBoundary (id : Nat) : Outcome Boundary := do
  match strD j "kind" with
  | "neumann" => return { rule := .neumann, name := strD j "name" "Neumann", id }
  | "base" => return { rule := .unspecified, name := strD j "name" "Boundary", id }
  | "dirichlet" => do
    return { rule := .dirichlet (← readPrescribed (j "value")), name := strD j "name" "Dirchlet", id }
  | "custom" => do
    return { rule := .custom (← readPrescribed (j "value")) (boolD j "inner" true) (boolD j "single_link")
             name := strD j "name" "Custom", id }
  | _ => bad

def indexList : Answer := do
  let flags ← readArray (fun v => do return (Scalar.uint 32).wrap (← asInt v)) (j "flags")
  let search :=
    { boundary := intD j "boundary_mask", fluid := intD j "fluid_mask", ghostLayers := intD j "ghost_layers" 1
      fromInside := boolD j "inner" true, single := boolD j "single_link" }
  let links ← Link.find flags (← asStencil (j "stencil")) search
  let rows := Json.arr (links.map fun l => ints l.entries)
  let dim := flags.dimensions
  let plain := Link.coordinateNames.take dim ++ [Boundary.directionName]
  match j.get? "boundary" with
  | some b => do
    let b ← readBoundary b 0
    let extended := b.profile?.isSome
    let names := if extended then (b.members dim).map (·.1) else plain
    let size := if extended then GridField.elementSize (b.listType dim) else 4 * plain.length
    return .obj [("names", texts names), ("itemsize", .int size), ("rows", rows)]
  | none => return .obj [("names", texts plain), ("rows", rows)]

def boundaryKernel : Answer := do
  let names ← readNames j
  let b ← readBoundary (j "boundary") 0
  let f ← names.field (strD j "field")
  let list ← b.listField f.spatialDimensions
  let k ← b.kernel A f list (← asStencil (j "stencil"))
    { place := readPlace j, parallel := boolD j "openmp" }
  described k j

structure FlagState where
  shape : Nats
  pool : FlagPool

def flagStep (s : FlagState) (m : String) (as : List Json) : FlagState × Answer :=
  let reserve := fun a =>
    let (pool, r) := a.perform s.pool
    ({ s with pool }, r.map ofInt)
  match m, as with
  | "next", _ => reserve FlagPool.takeNext
  | "reserve", [.int n] => reserve (FlagPool.take n)
  | "array", _ => (s, ofArray (fun n => .ok (.int n)) (NdArray.constant s.shape FlagPool.domain))
  | "again", _ => (s, raiseWith .invalid ("There is already a boundary handling registered at the data " ++
      "handling.If you want to add multiple handling objects, choose a different name."))
  | _, _ => (s, bad)

def flags (fault : Failure → Json) (j : Json) : Answer := do
  let domain ← asInts (j "domain")
  let layers := intD j "ghost_layers" 1
  let scalar ← match ← DataType.ofName (strD j "dtype" "uint32") with
    | .basic s _ => pure s
    | _ => bad
  let state := { shape := domain.map fun n => (n + 2 * layers).toNat, pool := { scalar } }
  return runSteps fault state (← steps j) flagStep

/-!
## Questions — time loops
-/

def asReal : Outcome Float := do return (← readNumber j).toFloat

def timeLoopMethod (m : String) (as : List Json) : Action (TimeLoop Json) Json := do
  let int? : Nat → Option Int := fun k => match as[k]? with
    | some (.int n) => some n
    | _ => none
  let int := fun k d => (int? k).getD d
  match m with
  | "run" => do
    TimeLoop.run (int 0 1)
    return .null
  | "benchmark_run" => ofFloat <$> TimeLoop.benchmarkRun (int 0 0) (int 1 0)
  | "run_time_span" => do
    let (n, time) ← TimeLoop.runFor (← asReal (as.headD (.int 0)))
    return .arr [.int n, ofFloat time]
  | "benchmark" => do
    return ofFloat (← TimeLoop.benchmark (← asReal (as.headD (.int 5))) (int 1 2) (int? 2))
  | _ => raise .general

def timeLoopAction (m : String) (as : List Json) : Action (TimeLoop Json) Json := do
  modify fun t => { t with tick := 1e-6, readings := 0 }
  let event := fun j => .arr [.str m, j]
  let each := fun
    | .arr js => js.map event
    | j => [event j]
  match m, as with
  | "call", [a] | "kernel", [a] => modify fun t => { t with calls := t.calls ++ each a }
  | "pre", [a] => modify fun t => { t with before := t.before ++ [event a] }
  | "post", [a] => modify fun t => { t with after := t.after ++ [event a] }
  | "single", [a] => modify fun t => { t with single := t.single ++ [event a] }
  | "timed", .str method :: dt :: rest => do
    let tick ← asReal dt
    modify fun t => { t with tick }
    let v ← timeLoopMethod method rest
    TimeLoop.record [.arr [.str "value", v]]
  | "run_time_span", _ => do
    match ← timeLoopMethod m as with
    | .arr (n :: _) => TimeLoop.record [.arr [.str "iterations", n]]
    | _ => pure ()
  | _, _ => do let _ ← timeLoopMethod m as
  let t ← get
  set { t with log := [] }
  return .arr [.int t.stepsRun, .int t.fixedSteps, .arr t.log]

def timeLoop (fault : Failure → Json) (j : Json) : Answer := do
  let t := { fixedSteps := intD j "fixed_steps" 2 }
  return runSteps fault t (← steps j) fun t m as => (timeLoopAction m as).perform t

end StencilForge.Query
