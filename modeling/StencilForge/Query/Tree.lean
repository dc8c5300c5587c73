import StencilForge.Kernel.Conversion
import StencilForge.Kernel.Staggered
import StencilForge.Query.Kernel

/-!
# Questions — changes of kernels

Most steps answer the code after the change; others ask about the parts of the kernel.
-/

namespace StencilForge.Query

open Document Statement Edit LoopNest

variable (j : Json)

/-! ### Staggered kernels -/

def readStaggered (c : Names) (j : Json) : Outcome Staggered := do
  let field ← c.field (strD j "field")
  let es ← asList (j "expressions")
  let values ← if boolD j "nested"
    then do pure (.several (← es.mapM (listOf (readExpr c))))
    else do pure (.single (← es.mapM (readExpr c)))
  return { field, values, sub := ← ((list? j "sub").getD []).mapM (readAssignment c) }

def staggeredVectors : Option Json → Option (Outcome Vector.Options)
  | some (.bool true) => some (.ok {})
  | some (.obj ps) => some (readVectorOptions ps)
  | _ => none

def staggeredKernelOf : Outcome Kernel := do
  let c ← readNames j
  let s ← readStaggered c j
  let o := options j
  require (!has o "iteration_slice" && !has o "ghost_layers") .violated
  let body ← s.body A (readPlace o) (boolD o "gpu_exclusive_conditions")
  checkOptions ("gpu_exclusive_conditions" :: kernelOptions) o
  let r ← readRequest c o body
  s.kernel A 0 body { r with vectors := staggeredVectors (o.get? "cpu_vectorize_info") }

def staggeredKernel : Answer := do described (← staggeredKernelOf j) j

/-! ### Steps on one kernel -/

structure Tree where
  kernel : Kernel
  names : Names
  /-- Left behind by code that could not be written: it names the types of vectors from then on. -/
  left : Option InstructionSet := none

variable (t : Tree) (j : Json)

/-- Its statements as they are, or the kernel made from assignments. -/
def treeOf : Outcome Tree := do
  let names ← readNames j
  match list? j "tree" with
  | some js => do
    let (body, r) ← (readStatements js).run { names }
    return { kernel := { name := strD j "name" "kernel", body, fresh := r.fresh }, names := r.names }
  | none => return { kernel := ← kernelOf j, names }

def readPieces : Outcome Body := do
  let js := match j with
    | .arr (.arr _ :: _) => (asList j).toOption.getD []
    | j => [j]
  let (body, _) ← (readStatements js).run { names := t.names, fresh := t.kernel.fresh }
  return body

def asNat : Outcome Nat := do return (← asInt j).toNat

def withBody (b : Body) : Tree := { t with kernel := { t.kernel with body := b } }

def Tree.shown (e : Expr) : Expr := (t.left.map (Code.vectorNamed · e)).getD e

def shownStatement (t : Tree) : Statement → Statement
  | .assign l r c => .assign (t.shown l) (t.shown r) c
  | .block p b => .block p (b.map (shownStatement t))
  | .loop l b => .loop l (b.map (shownStatement t))
  | .branch c yes e no => .branch (t.shown c) (yes.map (shownStatement t)) e (no.map (shownStatement t))
  | s => s

structure Located where
  outline : String
  lhs : Expr
  rhs : Expr
  loops : List Loop
  position : Nat

def sortedAssignments : List Located :=
  ((t.kernel.body.flatMap (located [])).zipIdx.map fun ((l, r, ls), i) =>
    ({ outline := arrow A (t.shown l) (t.shown r), lhs := l, rhs := r, loops := ls, position := i } : Located)).mergeSort
    fun a b => a.outline ≤ b.outline

def nthAssignment : Outcome Located := do
  present .outOfRange ((sortedAssignments t)[(← asNat j)]?)

/-- Sums, products, powers, comparisons, numbers and symbols without a type cannot. -/
def canReplace : Expr → Bool
  | .sym s => s.isTyped
  | .atom (.bool _) => true
  | .atom _ => false
  | .node h _ => match h with
    | .add | .mul | .pow | .rel _ => false
    | _ => true

def replaceSide (old new lhs rhs : Expr) (isConst : Bool) : Outcome Body :=
  if old == lhs then if canReplace new then .ok [.assign new rhs isConst] else raise .noSuchPart
  else if old == rhs then if canReplace new then .ok [.assign lhs new isConst] else raise .noSuchPart
  else raiseWith .invalid (Text.plain A new ++ " is not in args of <class 'pystencils.astnodes.SympyAssignment'>")

def sortedExprs (es : Exprs) : Answer := do return .arr (sorted (← es.mapM fun e => ofExpr (t.shown e)))

/-- The extent of the array behind an element is one of them. -/
def integersIn (e : Expr) : Exprs :=
  Visit.all (fun x => x.isInteger) e ++ (if (Visit.all (fun x => x.isResolved) e).isEmpty then [] else [Expr.one])

def partsOf (kind : String) : Answer := do
  let all := fun p => sortedExprs t (collectList (Visit.all p) t.kernel.body)
  match kind with
  | "symbol" => all (·.isSymbol)
  | "access" => all (·.isAccess)
  | "resolved" => all (·.isResolved)
  | "int" => sortedExprs t (collectList integersIn t.kernel.body)
  | "cast" => all (·.isCast)
  | _ => bad

def countOf (kind : String) : Answer := do
  let b := t.kernel.body
  match kind with
  | "loop" => return nat (loopsList b).length
  | "block" => return nat (blocks b).length
  | "cond" => return nat (b.flatMap conditions).length
  | "assign" => return nat (assignmentsList b).length
  | _ => bad

def headsOf : Json :=
  let b := t.kernel.body
  .arr ((blocks b).map (fun p => .str (p.getD "Block")) ++ (loopsList b).map fun (l, _) => .str (loopHead A l))

/-- The bound is found by its value: of equal ones the start comes first, then the step. -/
def replaceBound (which : String) (new : Expr) (l : Loop) : Outcome Loop := do
  let old ← match which with
    | "start" => pure l.start
    | "stop" => pure l.stop
    | "step" => pure l.step
    | _ => bad
  if old == l.start then return { l with start := new }
  else if old == l.step then return { l with step := new }
  else return { l with stop := new }

def readSharing : Option Json → Outcome Sharing
  | some (.obj ps) => ps.foldlM (fun s (k, v) => match k with
      | "schedule" => do return { s with schedule := ← asStr v }
      | "num_threads" => .ok { s with workers := match v with
          | .int n => .number n
          | _ => .any }
      | "collapse" => .ok { s with collapse := match v with
          | .int n => some n.toNat
          | _ => none }
      | "assume_single_outer_loop" => .ok { s with single := asBool v }
      | _ => raise .mistyped) {}
  | _ => .ok {}

/-- They answer the code, some with a number in front. -/
def changed (m : String) (as : List Json) : Outcome (Option (Tree × Option Nat)) := do
  let k := t.kernel
  let plain := fun b => do return some (withBody t (← b), none)
  let kernel := fun k => do return some ({ t with kernel := ← k }, none)
  let arg := fun i => as.getD i .null
  match m with
  | "code" => return some (t, none)
  | "blocking" => do
    let (b, n) ← block A (← listOf (readPosition t.names) (arg 0)) k.body
    return some (withBody t b, some n)
  | "cut" => do
    let places ← listOf (readPosition t.names) (arg 1)
    let all := loopsList k.body
    let (l, b) ← present .outOfRange all[(← asNat (arg 0))]?
    let n := (← l.cut A b places).length
    let body ← loop (← asNat (arg 0)) (fun l b => do return [.block none (← l.cut A b places)]) k.body
    return some ({ t with kernel := { k with body, isCut := true } }, some n)
  | "openmp" => do plain (parallel A (← readSharing as.head?) k.body)
  | "vectorize" => do
    let o ← match arg 0 with
      | .obj ps => readVectorOptions ps
      | _ => pure {}
    kernel (Vector.vectorize A o k)
  | "vector_casts" => plain (Vector.insertCasts A k.body)
  | "move_constants" => do
    let (body, fresh) ← Motion.moveConstants A k.fresh k.body
    return some ({ t with kernel := { k with body, fresh } }, none)
  | "inner_stride_one" => kernel (Vector.unitStride A k)
  | "cleanup" => plain (.ok (tidy k.body))
  | "staggered_cleanup" => kernel (Staggered.withoutConditions A k)
  | "insert_casts" => plain (Conversion.statements A k.body)
  | "split" => do plain (split A (← listOf (listOf (readExpr t.names)) (arg 0)) k.body)
  | "resolve" => do plain (Address.resolve A { readOnly := ← asStrs (arg 0) } k.body)
  | "subs" => do plain (replaceList A (← readTable t.names (arg 0)) k.body)
  | "destructure" => kernel (.ok { k with bundled := true })
  | "block_front" | "block_append" => do
    let new ← readPieces t (arg 1)
    plain (block (← asNat (arg 0)) (fun b => .ok (if m == "block_front" then new ++ b else b ++ new)) k.body)
  | "block_before" => do
    let new ← readPieces t (arg 1)
    let i ← asNat (arg 2)
    plain (block (← asNat (arg 0)) (fun b => do
      if i ≥ b.length then raise .outOfRange
      return new.foldl Address.insertAtEnd (b.take i) ++ b.drop i) k.body)
  | "block_replace" => do
    let new ← readPieces t (arg 2)
    let i ← asNat (arg 1)
    plain (block (← asNat (arg 0)) (fun b => do
      if i ≥ b.length then raise .outOfRange
      return b.take i ++ new ++ b.drop (i + 1)) k.body)
  | "loop_replace" => do
    let new ← readPosition t.names (arg 2)
    let which ← asStr (arg 1)
    plain (loop (← asNat (arg 0)) (fun l b => do return [.loop (← replaceBound which new l) b]) k.body)
  | "replace_in" => do
    let a ← nthAssignment t (arg 0)
    let old ← match arg 1 with
      | .str "lhs" => pure a.lhs
      | .str "rhs" => pure a.rhs
      | j => readExpr t.names j
    let new ← readExpr t.names (arg 2)
    plain (assignment a.position (replaceSide old new) k.body)
  | "cond_true" => do plain (branch (← asNat (arg 0)) (fun _ yes _ _ => .ok [.block none yes]) k.body)
  | "cond_false" => do
    plain (branch (← asNat (arg 0)) (fun _ _ e no => .ok (if e then [.block none no] else [])) k.body)
  | _ => return none

def askedOf (m : String) (as : List Json) : Answer := do
  let k := t.kernel
  match m, as with
  | "undefined", _ => do sortedExprs t (← k.needs)
  | "defined", _ => sortedExprs t (if k.bundled then k.bundledSymbols else definedList k.body)
  | "atoms", [.str kind] => partsOf t kind
  | "count", [.str kind] => countOf t kind
  | "repr", _ => return headsOf t
  | "str", _ => return .str (← (withBody t (k.body.map (shownStatement t))).kernel.outline A)
  | "html", [i] => do
    let a ← nthAssignment t i
    return .str s!"${← Latex.ofExpr A (t.shown a.lhs)} \\leftarrow {← Latex.ofExpr A (t.shown a.rhs)}$"
  | "hierarchy", [i] => do
    let a ← nthAssignment t i
    return .arr [.str a.outline, ints (a.loops.map (·.coord)), .arr (← a.loops.reverse.mapM fun l => ofExpr l.counter)]
  | _, _ => bad

def written (answer : Json → Json) : Tree × Answer :=
  match Code.kernel A .c t.kernel with
  | .ok code => (t, .ok (answer (.str code)))
  | .error f => ({ t with left := t.kernel.vectors }, .error f)

/-- Deciding branches keeps what was done before something went wrong. -/
def treeStep (m : String) (as : List Json) : Tree × Answer :=
  if m == "simplify" then
    let (body, fault) := Condition.simplifyBody A ((as.head?.map asBool).getD false) t.kernel.body
    let t := withBody t body
    match fault with
    | some f => (t, .error f)
    | none => written t id
  else match changed t m as with
    | .error f => (t, .error f)
    | .ok none => (t, askedOf t m as)
    | .ok (some (t, none)) => written t id
    | .ok (some (t, some n)) => written t fun code => .arr [nat n, code]

def tree (fault : Failure → Json) (j : Json) : Answer := do
  return masked (runSteps fault (← treeOf j) (← steps j) treeStep)

end StencilForge.Query
