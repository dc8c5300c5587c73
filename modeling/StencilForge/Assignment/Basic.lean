import StencilForge.Expr.Differentiate

/-!
# Assignments

A `Formula` is what operations on expressions can also be asked of: an assignment, a matrix or a list.
-/

namespace StencilForge

variable (f : Expr → Outcome Expr)

/-- A variable and the expression whose value it gets. -/
structure Assignment where
  lhs : Expr
  rhs : Expr
  deriving Repr

namespace Assignment

variable (A : Algebra) (a : Assignment)

instance : BEq Assignment := ⟨fun a b => a.lhs == b.lhs && a.rhs == b.rhs⟩

def make (lhs rhs : Expr) : Outcome Assignment := do
  let stored := lhs.isSymbol || lhs matches .node .element _ || lhs.isResolved || lhs.isCast
  unless stored do raise .mistyped
  return ⟨lhs, rhs⟩

def text : String := Text.plain A a.lhs ++ " ← " ++ Text.plain A a.rhs

def latex : Outcome String := do return s!"{← Latex.ofExpr A a.lhs} \\leftarrow {← Latex.ofExpr A a.rhs}"

def mapRight : Outcome Assignment := do return ⟨a.lhs, ← f a.rhs⟩

def mapBoth : Outcome Assignment := do make (← f a.lhs) (← f a.rhs)

end Assignment

inductive Formula where
  | expr (e : Expr)
  | assignment (a : Assignment)
  | matrix (rows : List Exprs)
  | list (fs : List Formula)

namespace Formula

/-- Assignments are changed by `g`. -/
def mapWith (g : Assignment → Outcome Assignment) : Formula → Outcome Formula
  | expr e => expr <$> f e
  | assignment a => assignment <$> g a
  | matrix rows => matrix <$> rows.mapM (·.mapM f)
  | list fs => list <$> fs.mapM (mapWith g)

def mapM : Formula → Outcome Formula := mapWith f (·.mapRight f)

def mapAllM : Formula → Outcome Formula := mapWith f (·.mapBoth f)

end Formula

/-!
## Assignments — functions that stand for expressions

`Placeholder.make` hides an expression behind a function of its symbols, whose derivatives are symbols of their own;
`Placeholder.remove` puts symbols in place of such functions and lists their definitions.
-/

namespace Placeholder

variable (A : Algebra)

def make (name : String) (id : Nat) (e : Expr) : Expr := .node (.placeholder name id) (Differentiate.byName e ++ [e])

def definitions (name : String) (e : Expr) : Outcome (List Assignment) := do
  let ds ← (Differentiate.byName e).mapM fun x => do
    return (⟨Differentiate.symbolFor name x, ← Differentiate.along A x e⟩ : Assignment)
  return ⟨.symbol name, e⟩ :: ds.filter (·.rhs.hasSymbols)

def isPlaceholder : Expr → Bool
  | .node (.placeholder ..) _ => true
  | _ => false

def definitionsIn (es : Exprs) : Outcome (List Assignment) := do
  let found := es.flatMap (Visit.outermost isPlaceholder)
  found.foldlM (fun acc p => match p with
    | .node (.placeholder name _) as => do
      let ds ← definitions A name (as.getLastD .zero)
      return ds.foldl (fun acc d => if acc.any (·.lhs == d.lhs) then acc else acc ++ [d]) acc
    | _ => .ok acc) []

def strip (e : Expr) : Outcome Expr :=
  Visit.replace A (fun
    | .node (.placeholder name _) _ => some (.ok (.symbol name))
    | _ => none) e

def prepend (as : List Assignment) : Outcome (List Assignment) := do
  return (← definitionsIn A (as.map (·.rhs))) ++ (← as.mapM (·.mapRight (strip A)))

end Placeholder

end StencilForge
