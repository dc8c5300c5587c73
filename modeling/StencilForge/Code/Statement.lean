import StencilForge.Code.Expression
import StencilForge.Kernel.Basic
import StencilForge.Literal

/-!
# Code — statements and kernels

Statements as C-like code, and kernels as functions.  The dialects differ in the marks on pointers, in the way a cell
is left, and in the bounds on the number of threads.
-/

namespace StencilForge.Code

variable (A : Algebra) (s : Style) (dialect : Dialect) (k : Kernel)

def declaredType (t : DataType) : Outcome String := do
  let n ← typeName s t
  match s.dialect, t with
  | .opencl, .pointer .. => return "__global " ++ n
  | _, _ => return n

def braces (parts : Strings) : String := "\x7b\n" ++ Lines.indent "   " ("\n".intercalate parts) ++ "\n\x7d"

def drawName (r : RandomDraw) : String × String × Nat :=
  let g := match r.generator with
    | .philox => "philox"
    | .aesni => "aesni"
  if r.single then (g, "float", 4) else (g, "double", 2)

/-- The time step, the cell and the keys. -/
def drawParameters (r : RandomDraw) : Exprs :=
  let cells := (List.range r.dim).map fun (i : Nat) =>
    A.add2 (.sym (Counter.symbol i)) (r.offsets.getD i .zero).ofPosition
  r.timeStep :: cells ++ .replicate (3 - r.dim) .zero ++ r.keys

def drawText (r : RandomDraw) : Outcome String := do
  let (g, t, n) := drawName r
  if s.dialect == .opencl || (s.dialect == .c && s.vectors.isSome) then
    raiseWith .unsupported "Not yet implemented for this backend"
  let parameters := (drawParameters A r).map (Text.plain A)
  let declarations := r.results.map fun x => s!"{t} {x.name};\n"
  let call := s!"{g}_{t}" ++ toString n ++ "(" ++ ", ".intercalate (parameters ++ r.results.map (·.name)) ++ ");\n"
  return "\n" ++ "".intercalate declarations ++ call

def alignment : Int := 64

def scratchType (m : Scratch) : Outcome Scalar := do
  let some (.basic t _) := m.pointer.dtype?.bind DataType.base?
    | raise .noSuchPart
  return t

/-- How far the pointer is moved, so that the right element is aligned: in doubles for a plain number. -/
def scratchOffset (m : Scratch) : Outcome Int := do
  let step := alignment / (← scratchType m).size
  match m.aligned with
  | .lit n => return .emod (-(Binary.round Number.precision n 0).floor) step
  | e => return .emod (-(← present .mistyped e.int?)) step

def scratchBytes (m : Scratch) : Outcome Expr := do
  let bytes := A.add2 (A.mul2 (.int (← scratchType m).size) m.size.ofPosition) (.int alignment)
  Build.node A (.fn .moduloCeil) [bytes, .int alignment]

def allocation (m : Scratch) : Outcome String := do
  let size ← scratchBytes A m
  let type ← typeName s (m.pointer.dtype?.getD .double)
  return s!"{type} {m.pointer.name}=({type})aligned_alloc({alignment}, " ++
    (← expression A s size) ++ s!") + {← scratchOffset m};"

def store (lhs rhs : Expr) : Outcome String := do
  let t ← Typing.typeOf lhs
  match t.isVector, lhs with
  | true, .node (.cast _) (place :: _ :: flags) => do
    let [aligned, streaming] := flags
      | raise .invalid
    let name := if aligned == .bool true then (if streaming == .bool true then "stream" else "storeA") else "storeU"
    let r ← Typing.typeOf rhs
    let rhs := if r.isVector then rhs else Build.cast .plain rhs [.type (.vector r 4)]
    let some v := s.vectors
      | raise .mistyped
    if (v.template? name).isNone then raise .missing
    return v.write name [s!"&{← expression A s place}", ← expression A s rhs] ++ ";"
  | _, _ => return s!"{← expression A s lhs} = {← expression A s rhs};"

mutual

def statement : Statement → Outcome String
  | .assign lhs rhs isConst => do
    if Statement.declares lhs then
      let t ← match lhs with
        | .sym x => do declaredType s (← present .noSuchPart x.dtype?)
        | _ => raise .noSuchPart
      return (if isConst then "const " else "") ++ t ++ s!" {← expression A s lhs} = " ++ (← expression A s rhs) ++ ";"
    else store A s lhs rhs
  | .block pragma body => do
    let text := braces (← statements body)
    return pragma.elim text fun p => s!"{p}\n{text}"
  | .loop l body => do
    let c := l.counterName
    let head := s!"for (int {c} = {← expression A s l.start}; {c} < " ++
      (← expression A s l.stop) ++ s!"; {c} += {← expression A s l.step})"
    return "\n".intercalate (l.hints ++ [head, braces (← statements body)])
  | .branch cond yes hasElse no => do
    if (← Typing.typeOf cond).isVector then
      raiseWith .invalid "Problem with Conditional inside vectorized loop - use vec_any or vec_all"
    let c ← expression A s cond
    let first := s!"if ({c})\n{braces (← statements yes)} "
    if hasElse then return first ++ "else " ++ braces (← statements no) else return first
  | .skip => .ok (if s.dialect == .c then "continue;" else "return;")
  | .snippet x => .ok s!"\n{x.text}"
  | .random r => drawText A s r
  | .allocate m => allocation A s m
  | .release m => do return s!"free({m.pointer.name} - {← scratchOffset m});"

def statements : Body → Outcome Strings
  | [] => .ok []
  | x :: r => do return (← statement x) :: (← statements r)

end

def unbundled : Outcome Strings := do
  let lines ← k.bundledSymbols.mapM fun
    | .sym x => do
      let t ← typeName s (x.dtype?.getD .double)
      let member := match x.kind with
        | .shape _ i => s!"shape[{i}]"
        | .stride _ i => s!"stride[{i}]"
        | _ => "data"
      return s!"{t} {x.name} = " ++ (Kernel.fieldNames x).headD "" ++ s!".{member};"
    | _ => return ""
  return lines.mergeSort (· ≤ ·)

def kernelBody : Outcome String := do
  let body := braces (← statements A s k.body)
  if k.bundled then
    let gap := "\n   "
    return braces ["\x7b" ++ gap ++ gap.intercalate ((← unbundled s k) ++ Lines.splitTrimmed body) ++ "\n\x7d"]
  else return body

def signature : Outcome String := do
  let parameters ← (← k.parameters).mapM fun p => do
    let t ← declaredType s (← present .noSuchPart p.symbol.dtype?)
    return s!"{t} {p.symbol.name}"
  let bounds ← match s.dialect, k.target with
    | .cuda, .gpu t => do
      (t.maxThreads A).elim (pure "") fun n => pure s!"__launch_bounds__({Text.plain A n}) "
    | .cuda, .cpu => raise .noSuchPart
    | _, _ => pure ""
  return s!"FUNC_PREFIX {bounds}void {k.name}(" ++ ", ".intercalate parameters ++ ")"

/-- Vector instructions are only used in C. -/
def styleOf : Style :=
  match dialect with
  | .c => { dialect, vectors := k.vectors, named := k.vectors.isSome }
  | d => { dialect := d }

def kernelSignature : Outcome String := signature A (styleOf dialect k) k

def kernel : Outcome String := do
  let s := styleOf dialect k
  return s!"\n{← signature A s k}\n{← kernelBody A s k}"

end StencilForge.Code
