import StencilForge.Document.Array
import StencilForge.Kernel.Request
import StencilForge.Kernel.Snippet

/-!
# Documents — statements and kernels

Statements are lists of a word and its parts.  Random draws get new names when they are read.
-/

namespace StencilForge.Document

variable (c : Names) (j : Json)

structure Reading where
  names : Names
  fresh : Nat := 0
  draws : Nat := 0

abbrev Read := StateT Reading Outcome

def generatorOf : String → Option (Generator × Bool)
  | "PhiloxTwoDoubles" => some (.philox, false)
  | "PhiloxFourFloats" => some (.philox, true)
  | "AESNITwoDoubles" => some (.aesni, false)
  | "AESNIFourFloats" => some (.aesni, true)
  | _ => none

/-- Gives the next unused number too. -/
def readDrawParts (fresh : Nat) (name : String) (dim : Nat) (o : Json) : Outcome (RandomDraw × Nat) := do
  let some (g, single) := generatorOf name
    | bad
  let time := (← (o.get? "time_step").mapM (readPosition c)).getD RandomDraw.time
  let offsets ← (list? o "offsets").mapM (·.mapM (readPosition c))
  let keys ← (list? o "keys").mapM (·.mapM (readPosition c))
  RandomDraw.make fresh g single dim time (offsets.getD [.lit 0, .lit 0, .lit 0]) keys

def readDraw (name : String) (dim : Nat) (o : Json) : Read RandomDraw := do
  let r ← get
  let (d, fresh) ← readDrawParts r.names r.fresh name dim o
  let aliases := d.results.zipIdx.map fun (s, k) => (s!"rnd{r.draws}_{k}", .sym s)
  set { r with fresh, draws := r.draws + 1, names := { r.names with aliases := r.names.aliases ++ aliases } }
  return d

def withNames {α : Type} (f : Names → Outcome α) : Read α := do f (← get).names

mutual

/-- `fuel` bounds the nesting depth. -/
def readStatementDeep : Nat → Json → Read Statement
  | 0, _ => bad
  | fuel + 1, j => match j with
    | .arr (.str h :: as) => do
      let expr := fun j => withNames fun c => readExpr c j
      let position := fun j => withNames fun c => readPosition c j
      match h, as with
      | ":=", _ => do
        let a ← withNames fun c => readAssignment c j
        return .set a.lhs a.rhs
      | "sa", l :: r :: rest => do return .assign (← expr l) (← expr r) ((rest.head?.map asBool).getD true)
      | "if", c :: yes :: rest => do
        let c ← expr c
        let yes ← readBodyDeep fuel yes
        match rest with
        | no :: _ => return .branch c yes true (← readBodyDeep fuel no)
        | [] => return .branch c yes false []
      | "block", [b] => do return .block none (← readBodyDeep fuel b)
      | "pragma", [.str p, b] => do return .block (some p) (← readBodyDeep fuel b)
      | "loop", c :: start :: stop :: step :: b :: rest => do
        let body ← readBodyDeep fuel b
        return .loop { coord := ← asInt c, start := ← position start, stop := ← position stop,
                       step := ← position step, isBlock := (rest.head?.map asBool).getD false } body
      | "skip", _ => return .skip
      | "early_out", [c] => do return .branch (← Build.node A (.fn .vecAll) [← expr c]) [.skip] false []
      | "code", .str t :: rest => do
        let list := fun (k : Nat) => match rest[k]? with
          | some (.arr xs) => xs.mapM expr
          | _ => pure []
        return .snippet { text := t, reads := ← list 0, defines := ← list 1 }
      | "print", [s] => do
        match ← expr s with
        | .sym x => return .snippet (.print x.name (.sym x))
        | _ => bad
      | "boundary_info", [s] => do
        let s ← withNames fun _ => listOf asInts s
        return .snippet (← Snippet.directions s)
      | "rng", .str g :: d :: rest => do return .random (← readDraw g (← asInt d).toNat (rest.headD (.obj [])))
      | _, _ => bad
    | _ => bad

def readBodyDeep : Nat → Json → Read Body
  | 0, _ => bad
  | fuel + 1, j => do (← asList j).mapM (readStatementDeep fuel)

end

def readStatement : Read Statement := readStatementDeep (fuelFor j) j

def readStatements (js : List Json) : Read Body := js.mapM readStatement

/-! ### Options of kernels -/

def readSymbolTypes (j : Option Json) (body : Body) : Outcome SymbolTypes :=
  match j with
  | none => .ok (.ofDefault "double" body)
  | some (.str t) => .ok (.ofDefault t body)
  | some (.obj ps) => do return { entries := ← ps.mapM fun (k, v) => do return (k, ← asStr v) }
  | some _ => bad

def readGhostLayers : Option Json → Outcome Domain.GhostLayers
  | none | some .null => .ok .automatic
  | some (.int n) => .ok (.uniform n)
  | some (.arr ps) => do
    return .each (← ps.mapM fun p => do
      match ← asInts p with
      | [a, b] => return (a, b)
      | _ => bad)
  | some _ => bad

def readWorkers : Option Json → Option LoopNest.Workers
  | some (.bool true) => some .any
  | some (.int n) => if n = 0 then none else some (.number n)
  | _ => none

/-- Names that are not known are refused. -/
def readVectorOptions (ps : List (String × Json)) : Outcome Vector.Options :=
  ps.foldlM (fun o (k, v) => match k with
    | "instruction_set" => .ok { o with instructions := match v with
        | .str s => some s
        | _ => none }
    | "assume_aligned" => .ok { o with aligned := asBool v }
    | "nontemporal" => .ok { o with streaming := match v with
        | .arr fs => fun f => fs.any fun n => n == .str f.name || n == .arr [.str "field", .str f.name]
        | v => fun _ => asBool v }
    | "assume_inner_stride_one" => .ok { o with unitStride := asBool v }
    | "assume_sufficient_line_padding" => .ok { o with padded := asBool v }
    | _ => raise .mistyped) {}

def readVectors : Option Json → Option (Outcome Vector.Options)
  | none => none
  | some (.bool true) => some (.ok {})
  | some (.obj ps) => if ps.isEmpty then none else some (readVectorOptions ps)
  | some j => given (asBool j) (raiseWith .invalid "Invalid value for cpu_vectorize_info")

def readBlocks (ps : List (String × Json)) : Outcome Gpu.Scheme := do
  let start := ([.lit 16, .lit 16, .lit 1], true, false, [1024, 1024, 64])
  let (size, permute, compiledIn, maximum) ← ps.foldlM (fun (s, p, k, m) (name, v) => match name with
    | "block_size" => do return (← listOf (readPosition c) v, p, k, m)
    | "permute_block_size_dependent_on_layout" => .ok (s, asBool v, k, m)
    | "compile_time_block_size" => .ok (s, p, asBool v, m)
    | "maximum_block_size" => match v with
      | .str "auto" => raise .absent
      | v => do return (s, p, k, ← asInts v)
    | _ => raise .mistyped) start
  return .blocks size permute compiledIn maximum

def readScheme : Outcome (Outcome Gpu.Scheme) :=
  let ps := pairs j "gpu_indexing_params"
  match strD j "gpu_indexing" "block" with
  | "block" => .ok (readBlocks c ps)
  | "line" => .ok (if ps.isEmpty then .ok .lines else raise .mistyped)
  | other => raiseWith .invalid s!"Unknown GPU indexing {other}. Valid values are 'block' and 'line'"

def readPlace : Kernel.Place :=
  match j.get? "target" with
  | none => .cpu
  | some (.str "cpu") => .cpu
  | some (.str "gpu") => .gpu
  | some (.str "llvm") => .llvm
  | some (.str s) => .unknown s
  | some j => .unknown j.compact

def kernelOptions : Strings :=
  ["target", "data_type", "iteration_slice", "ghost_layers", "skip_independence_check", "cpu_openmp",
   "cpu_vectorize_info", "cpu_blocking", "gpu_indexing", "gpu_indexing_params"]

def readRequest (body : Body) : Outcome Kernel.Request := do
  let slice ← match j.get? "iteration_slice" with
    | none | some .null => pure none
    | some v => do pure (some (← readSlices c v))
  let options :=
    { types := ← readSymbolTypes (j.get? "data_type") body
      slice
      ghost := ← readGhostLayers (j.get? "ghost_layers")
      unchecked := boolD j "skip_independence_check" }
  let blocking ← ((list? j "cpu_blocking").getD []).mapM (readPosition c)
  return { place := readPlace j, options, blocking, sharing := readWorkers (j.get? "cpu_openmp")
           vectors := readVectors (j.get? "cpu_vectorize_info"), scheme := readScheme c j }

def indexedOptions : Strings :=
  ["target", "data_type", "coordinate_names", "cpu_openmp", "gpu_indexing", "gpu_indexing_params"]

def readIndexedRequest (lists : Fields) (body : Body) :
    Outcome Kernel.IndexedRequest := do
  let names := (← (list? j "coordinate_names").mapM (·.mapM asStr)).getD Indexed.coordinateNames
  return { place := readPlace j, options := { types := ← readSymbolTypes (j.get? "data_type") body, lists, names }
           sharing := readWorkers (j.get? "cpu_openmp"), scheme := readScheme c j }

end StencilForge.Document
