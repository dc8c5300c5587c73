import StencilForge.Kernel.Indexed
import StencilForge.Kernel.Vector

/-!
# Kernel — kernels with all options

`Kernel.Request` says where a kernel runs, and how its loops are blocked, divided among threads and vectorised.
-/

namespace StencilForge.Kernel

open LoopNest

inductive Place where
  | cpu
  | gpu
  | llvm
  | unknown (name : String)
  deriving DecidableEq, Repr

/-- Parts that are wrong only count when they are used. -/
structure Request where
  place : Place := .cpu
  options : Options
  groups : List Exprs := []
  blocking : Exprs := []
  sharing : Option Workers := none
  vectors : Option (Outcome Vector.Options) := none
  scheme : Outcome (Outcome Gpu.Scheme) := .ok (.ok .standard)

def groupSymbol (types : SymbolTypes) (typedByName : Bool) : Expr → Outcome Expr
  | .node (.access f n k) as => .ok (.node (.access f n k) as)
  | .sym s =>
    if s.isTyped then .ok (.sym s)
    else if !typedByName then raise .mistyped
    else do return .typedSymbol s.name (← DataType.ofText (← types.get s.name))
  | _ => raiseWith .invalid "Term has to be field access or symbol"

def refine (A : Algebra) (r : Request) (single : Bool) (k : Kernel) : Outcome Kernel := do
  let (body, collapse) ← if r.blocking.isEmpty then pure (k.body, none)
    else do
      let (b, n) ← block A r.blocking k.body
      pure (b, some n)
  let body ← r.sharing.elim (pure body) fun workers => parallel A { workers, collapse, single } body
  let k := { k with body }
  r.vectors.elim (pure k) fun o => do Vector.vectorize A (← o) k

def ofRequest (A : Algebra) (fresh : Nat) (body : Body) (r : Request) : Outcome Kernel :=
  match r.place with
  | .cpu => do
    let groups := r.groups.mapM (·.mapM (groupSymbol r.options.types r.options.types.fallback.isNone))
    let between := fun b => do if r.groups.isEmpty then return b else split A (← groups) b
    let k ← createWith A fresh body r.options between
    refine A r true k
  | .gpu => do
    let scheme ← r.scheme
    Gpu.create A fresh body r.options scheme
  | .llvm => raise .absent
  | .unknown name =>
    raiseWith .invalid s!"Unknown target {name}. Has to be one of 'cpu', 'gpu' or 'llvm' "

structure IndexedRequest where
  place : Place := .cpu
  options : Indexed.Options
  sharing : Option Workers := none
  scheme : Outcome (Outcome Gpu.Scheme) := .ok (.ok .standard)

def ofIndexedRequest (A : Algebra) (fresh : Nat) (body : Body) (r : IndexedRequest) : Outcome Kernel :=
  match r.place with
  | .cpu => do
    let k ← Indexed.create A fresh r.options body
    r.sharing.elim (pure k) fun workers => do return { k with body := ← parallel A { workers } k.body }
  | .gpu => do
    let scheme ← r.scheme
    Indexed.createGpu A fresh r.options body scheme
  | .llvm => raiseWith .unsupported "Indexed kernels are not yet supported in LLVM backend"
  | .unknown name => raiseWith .invalid s!"Unknown target {name}. Has to be either 'cpu' or 'gpu'"

end StencilForge.Kernel
