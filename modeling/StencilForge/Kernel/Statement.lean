import StencilForge.Expr.Access
import StencilForge.Expr.Substitute
import StencilForge.Kernel.Counter

/-!
# Kernel — statements

A tree of assignments, blocks, loops, branches, and a few leaves.  `Statement.defined` are the symbols that a
statement defines for its neighbours, `Statement.undefined` those that it needs.
-/

namespace StencilForge

structure Loop where
  coord : Int
  start : Expr
  stop : Expr
  step : Expr := .lit 1
  isBlock : Bool := false
  hints : Strings := []
  deriving Inhabited

namespace Loop

def counterName (l : Loop) : String := if l.isBlock then Counter.blockName l.coord else Counter.name l.coord

def counter (l : Loop) : Expr := .sym (if l.isBlock then Counter.blockSymbol l.coord else Counter.symbol l.coord)

def bounds (l : Loop) : Exprs := [l.start, l.stop, l.step]

end Loop

inductive Snippet.Kind where
  | plain
  | print
  | directions
  deriving DecidableEq, Repr

structure Snippet where
  kind : Snippet.Kind := .plain
  text : String
  reads : Exprs := []
  defines : Exprs := []
  headers : Strings := []
  /-- The tables of integers that the text defines: name, type of the elements, elements. -/
  tables : List (String × Scalar × Ints) := []

inductive Generator where
  | philox
  | aesni
  deriving DecidableEq, Repr

structure RandomDraw where
  generator : Generator
  /-- Four numbers of single precision instead of two of double precision. -/
  single : Bool
  dim : Nat
  timeStep : Expr
  offsets : Exprs
  keys : Exprs
  results : List Symbol

structure Scratch where
  pointer : Symbol
  size : Expr
  aligned : Expr

inductive Statement where
  | assign (lhs rhs : Expr) (isConst : Bool)
  | block (pragma : Option String) (body : List Statement)
  | loop (l : Loop) (body : List Statement)
  | branch (cond : Expr) (yes : List Statement) (hasElse : Bool) (no : List Statement)
  | skip
  | snippet (s : Snippet)
  | random (r : RandomDraw)
  | allocate (m : Scratch)
  | release (m : Scratch)
  deriving Inhabited

abbrev Body := List Statement

namespace Statement

variable (body : Body)

def set (lhs rhs : Expr) : Statement := .assign lhs rhs true

def isLoop : Statement → Bool
  | .loop .. => true
  | _ => false

def isBranch : Statement → Bool
  | .branch .. => true
  | _ => false

/-- Only variables are declared. -/
def declares : Expr → Bool
  | .node (.cast _) _ | .node (.access ..) _ | .node .element _ | .node (.resolved ..) _ => false
  | _ => true

def isDeclaration : Statement → Bool
  | .assign lhs _ _ => declares lhs
  | _ => false

mutual

def size : Statement → Nat
  | .block _ body => sizeList body + 1
  | .loop _ body => sizeList body + 1
  | .branch _ yes _ no => sizeList yes + sizeList no + 1
  | _ => 1

def sizeList : Body → Nat
  | [] => 0
  | s :: r => size s + sizeList r

end

/-! ### Symbols -/

def isVariable : Expr → Bool
  | .sym _ | .node (.access ..) _ => true
  | _ => false

def joinNew (xss : List Exprs) : Exprs := xss.foldl unionNew []

mutual

/-- What only a head sees does not count. -/
def variablesOf : Expr → Exprs
  | .atom a => if isVariable (.atom a) then [.atom a] else []
  | .node h as => match h with
    | .access .. => [.node h as]
    | .resolved .. => joinNew ((variablesEach as).take 2)
    | .placeholder .. => joinNew (variablesEach as).dropLast
    | .series _ => match variablesEach as with
      | body :: bound :: limits => joinNew (body.filter (!bound.contains ·) :: limits)
      | _ => []
    | _ => joinNew (variablesEach as)

def variablesEach : Exprs → List Exprs
  | [] => []
  | a :: as => variablesOf a :: variablesEach as

end

def countersOf (accesses : Exprs) : Exprs :=
  let dim := (accesses.filter (·.isAccess)).foldl (fun d a => max d a.offsets.length) 0
  (List.range dim).map fun (i : Nat) => .sym (Counter.symbol i)

def RandomDraw.needs (r : RandomDraw) : Exprs :=
  let given := (r.timeStep :: r.offsets ++ r.keys).filter isVariable
  unionNew (unionNew [] given) ((List.range r.dim).map fun (i : Nat) => .sym (Counter.symbol i))

def without (xs ys : Exprs) : Exprs := xs.filter (!ys.contains ·)

mutual

def defined : Statement → Exprs
  | .assign lhs _ _ => if declares lhs then [lhs] else []
  | .block _ body => definedList body
  | .loop l _ => [l.counter]
  | .branch .. | .skip | .release _ => []
  | .snippet s => s.defines
  | .random r => r.results.map .sym
  | .allocate m => [.sym m.pointer]

def definedList : Body → Exprs
  | [] => []
  | s :: r => unionNew (defined s) (definedList r)

end

mutual

def undefined : Statement → Exprs
  | .assign lhs rhs _ =>
    let used := variablesOf rhs
    unionNew (unionNew used (countersOf used)) (variablesOf lhs)
  | .block _ body => without (undefinedList body) (definedList body)
  | .loop l body =>
    let inner := without (undefinedList body) (definedList body)
    without (unionNew inner (joinNew (l.bounds.map variablesOf))) [l.counter]
  | .branch cond yes _ no =>
    unionNew (unionNew (without (undefinedList yes) (definedList yes))
      (without (undefinedList no) (definedList no))) (variablesOf cond)
  | .skip | .release _ => []
  | .snippet s => without s.reads s.defines
  | .random r => RandomDraw.needs r
  | .allocate m => variablesOf m.size

def undefinedList : Body → Exprs
  | [] => []
  | s :: r => unionNew (undefined s) (undefinedList r)

end

def free : Exprs := without (undefinedList body) (definedList body)

/-! ### Parts -/

mutual

def collect (f : Expr → Exprs) : Statement → Exprs
  | .assign lhs rhs _ => unionNew (unionNew [] (f lhs)) (f rhs)
  | .block _ body => collectList f body
  | .loop l body => unionNew (collectList f body) (joinNew (l.bounds.map f))
  | .branch cond yes _ no => unionNew (unionNew (unionNew [] (f cond)) (collectList f yes)) (collectList f no)
  | .random r => joinNew ((r.timeStep :: r.keys).map f)
  | .allocate m => f (.sym m.pointer)
  | .skip | .snippet _ | .release _ => []

def collectList (f : Expr → Exprs) : Body → Exprs
  | [] => []
  | s :: r => unionNew (collect f s) (collectList f r)

end

def accesses : Exprs := collectList Access.all body

mutual

def loops : Statement → List (Loop × Body)
  | .loop l body => (l, body) :: loopsList body
  | .block _ body => loopsList body
  | .branch _ yes _ no => loopsList yes ++ loopsList no
  | _ => []

def loopsList : Body → List (Loop × Body)
  | [] => []
  | s :: r => loops s ++ loopsList r

end

def isInnermost : Bool := (loopsList body).isEmpty

mutual

def assignments : Statement → List (Expr × Expr)
  | .assign lhs rhs _ => [(lhs, rhs)]
  | .block _ body => assignmentsList body
  | .loop _ body => assignmentsList body
  | .branch _ yes _ no => assignmentsList yes ++ assignmentsList no
  | _ => []

def assignmentsList : Body → List (Expr × Expr)
  | [] => []
  | s :: r => assignments s ++ assignmentsList r

end

/-! ### Replacement -/

mutual

def replace (A : Algebra) (t : Table Expr Expr) : Statement → Outcome Statement
  | .assign lhs rhs k => do return .assign (← Substitute.table A t lhs) (← Substitute.table A t rhs) k
  | .block p body => do return .block p (← replaceList A t body)
  | .loop l body => do
    let body ← replaceList A t body
    return .loop { l with
      start := ← replaceBound A t l.start
      stop := ← replaceBound A t l.stop
      step := ← replaceBound A t l.step } body
  | .branch cond yes e no => do
    let yes ← replaceList A t yes
    let no ← replaceList A t no
    return .branch (← Substitute.algebraicTable A t cond) yes e no
  | s => .ok s

def replaceList (A : Algebra) (t : Table Expr Expr) : Body → Outcome Body
  | [] => .ok []
  | s :: r => do return (← replace A t s) :: (← replaceList A t r)

/-- Plain integers stay plain. -/
def replaceBound (A : Algebra) (t : Table Expr Expr) : Expr → Outcome Expr
  | .lit n => .ok (.lit n)
  | e => Substitute.algebraicTable A t e

end

end Statement

end StencilForge
