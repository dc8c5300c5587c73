import StencilForge.Code.Program
import StencilForge.Document.Kernel
import StencilForge.Expr.Cost
import StencilForge.Query.Steps

/-!
# Questions — kernels

A kernel is described by the parts that are wanted: code, parameters, fields, launch.
-/

namespace StencilForge.Query

open Document

variable (k : Kernel) (j : Json)

/-! ### Names that depend on a digest -/

def isHex (c : Char) : Bool := c.isDigit || ('a' ≤ c && c ≤ 'f')

def isWord (c : Char) : Bool := c.isAlphanum || c == '_'

def numberOf (s : String) : StateM Strings Nat := do
  let seen ← get
  match seen.findIdx? (· == s) with
  | some i => return i
  | none => do
    set (seen ++ [s])
    return seen.length

/-- They end a word or stand before an underscore. -/
def splitDigest : Chars → Option (Chars × Chars × Chars)
  | [] => none
  | c :: r =>
    let d := (c :: r).take 16
    let rest := (c :: r).drop 16
    if d.length == 16 && d.all isHex && rest.headD '_' == '_' then some ([], d, rest)
    else (splitDigest r).map fun (a, b, e) => (c :: a, b, e)

def maskWord (w : Chars) : StateM Strings Chars := do
  let start := "_data_".toList
  match (List.range w.length).find? fun i => start.isPrefixOf (w.drop i) with
  | none => return w
  | some i => match splitDigest (w.drop (i + 6)) with
    | none => return w
    | some (a, d, r) => do
      let n ← numberOf (.ofList d)
      return w.take (i + 6) ++ a ++ s!"#{n}#".toList ++ r

/-- `fuel` bounds the number of words. -/
def maskChars : Nat → Chars → StateM Strings Chars
  | 0, cs => return cs
  | _, [] => return []
  | fuel + 1, c :: cs =>
    if isWord c then do
      let w := (c :: cs).takeWhile isWord
      let w' ← maskWord w
      return w' ++ (← maskChars fuel ((c :: cs).drop w.length))
    else do return c :: (← maskChars fuel cs)

def maskText (s : String) : StateM Strings String := do
  let cs := s.toList
  return .ofList (← maskChars (cs.length + 1) cs)

def maskDeep : Nat → Json → StateM Strings Json
  | 0, j => return j
  | fuel + 1, j => match j with
    | .str s => .str <$> maskText s
    | .arr xs => .arr <$> xs.mapM (maskDeep fuel)
    | .obj ps => do return .obj (← ps.mapM fun (k, v) => do return (k, ← maskDeep fuel v))
    | j => return j

def masked : Json := ((maskDeep (depth j + 1) j).run []).1

/-! ### Descriptions -/

def ofCost (c : Cost) : Json :=
  .obj [("adds", .int c.adds), ("muls", .int c.muls), ("divs", .int c.divs), ("sqrts", .int c.sqrts),
    ("fast_sqrts", .int c.fastSqrts), ("fast_inv_sqrts", .int c.fastInvSqrts), ("fast_div", .int c.fastDivs)]

def parameterKind : Kernel.ParameterKind → String
  | .pointer => "pointer"
  | .shape => "shape"
  | .stride => "stride"
  | .scalar => "scalar"

def ofParameters : Answer := do
  return .arr (← (← k.parameters).mapM fun p => do
    let t ← ofType (← present .noSuchPart p.symbol.dtype?)
    return .arr [.str p.symbol.name, t, texts (p.fields.map (·.name)), .str (parameterKind p.kind)])

def ofGhostLayers : Domain.GhostLayers → Json
  | .automatic => .null
  | .uniform n => .int n
  | .each ps => .arr (ps.map fun (a, b) => ints [a, b])

def sortedNames (fs : Fields) : Json := sortedTexts (fs.map (·.name))

def fieldParts : List (String × Json) :=
  let target := match k.target with
    | .cpu => ["cpu", "c"]
    | .gpu _ => ["gpu", "gpucuda"]
  [("accessed", sortedNames k.fields), ("written", sortedNames k.fieldsWritten),
   ("ghost_layers", ofGhostLayers k.ghostLayers), ("target", texts (target ++ [k.name]))]

def operationCount : Answer := do
  let costs ← (Statement.assignmentsList k.body).mapM fun (_, r) => Cost.ofExpr A .real r
  return ofCost (.sum costs)

def ofLaunch (l : Threads.Launch) : Answer := do
  return .obj [("block", ← ofExprs l.block), ("grid", ← ofExprs l.grid)]

def launchParts : Outcome (List (String × Json)) := do
  match k.target with
  | .cpu => raise .noSuchPart
  | .gpu t => do
    let launches ← (← asList (j "shapes")).mapM fun s => do ofLaunch (← t.launch A (← asInts s))
    return [("launch", .arr launches), ("max_threads", ← (t.maxThreads A).elim (pure .null) ofExpr)]

def loopParts (outermost : Bool) : Statement → List Json
  | .loop l body =>
    .arr [.str (Statement.loopHead A l), .bool (Statement.isInnermost body), .bool outermost, .int l.coord] ::
      body.flatMap (loopParts false)
  | .block _ body => body.flatMap (loopParts outermost)
  | .branch _ yes _ no => yes.flatMap (loopParts outermost) ++ no.flatMap (loopParts outermost)
  | _ => []

def readDialect : Outcome Dialect :=
  let name := strD j "dialect" "c"
  match Dialect.ofName? name with
  | some d => .ok d
  | none => raiseWith .invalid ("Unknown dialect: " ++ name)

def ownDialect : Dialect := match k.target with
  | .cpu => .c
  | .gpu _ => .cuda

def part (name : String) : Outcome (List (String × Json)) := do
  let one := fun v => do return [(name, ← v)]
  let text := fun v => do return [(name, .str (← v))]
  match name with
  | "code" => do text (Code.kernel A (← readDialect j) k)
  | "cuda" => text (Code.kernel A .cuda k)
  | "opencl" => text (Code.kernel A .opencl k)
  | "show" => text (Code.kernel A (ownDialect k) k)
  | "signature" => do text (Code.kernelSignature A (← readDialect j) k)
  | "params" => one (ofParameters k)
  | "headers" => return [("headers", texts k.headers)]
  | "repr" => text k.title
  | "str" => text (k.outline A)
  | "ops" => one (operationCount k)
  | "fields" => return fieldParts k
  | "boilerplate" => text (Binding.function (boolD j "checks" true) (strD j "function_name" k.name) k)
  | "module" => text (Binding.moduleText A {} "mod" (strD j "function_name" k.name) k)
  | "launch" => launchParts k j
  | "loops" => return [("loops", .arr (sorted (k.body.flatMap (loopParts true))))]
  | _ => bad

def describe : Outcome (List (String × Json)) := do
  let want ← (list? j "want").mapM (·.mapM asStr)
  return (← (want.getD ["code", "params"]).mapM (part k j)).flatten

def described : Answer := do return masked (.obj (← describe k j))

/-! ### Making kernels -/

def bodyOf : Read Body := do
  match j.get? "ac" with
  | some ac => do
    let sub ← readStatements ((asList (field ac "sub")).toOption.getD [])
    let main ← readStatements ((asList (field ac "main")).toOption.getD [])
    return sub ++ main
  | none => do
    let all ← readStatements (← asList (j "assignments"))
    if boolD j "single" then return all.take 1 else return all

def splitGroups (c : Names) (j : Json) : Outcome (List Exprs) := do
  ((list? (field (j "ac") "hints") "split_groups").getD []).mapM (listOf (readExpr c))

def options : Json := (j.get? "opts").getD (.obj [])

def checkOptions (known : Strings) : Json → Outcome Unit
  | .obj ps => if ps.any fun (k, _) => !known.contains k then raise .mistyped else .ok ()
  | _ => .ok ()

def kernelOver (names : Names) (j : Json) : Outcome Kernel := do
  let (body, r) ← (bodyOf j).run { names }
  let o := options j
  checkOptions kernelOptions o
  let request ← readRequest r.names o body
  let groups ← splitGroups r.names j
  Kernel.ofRequest A r.fresh body { request with groups }

def kernelOf : Outcome Kernel := do kernelOver (← readNames j) j

def kernel : Answer := do described (← kernelOf j) j

def indexedKernelOf : Outcome Kernel := do
  let names ← readNames j
  let (body, r) ← (bodyOf j).run { names }
  let o := options j
  checkOptions indexedOptions o
  let lists ← (← asStrs (j "index_fields")).mapM r.names.field
  Kernel.ofIndexedRequest A r.fresh body (← readIndexedRequest r.names o lists body)

def indexedKernel : Answer := do described (← indexedKernelOf j) j

end StencilForge.Query
