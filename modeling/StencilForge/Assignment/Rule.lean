import StencilForge.Assignment.Sharing
import StencilForge.Expr.Additive
import StencilForge.Literal

/-!
# Assignment — rules

A rule turns a collection into one that computes the same values, usually with less work.  The symbols that it has
taken from the source are used up even if it fails.
-/

namespace StencilForge

variable (name : String)

structure Rule where
  name : String
  run : Collection → SymbolSource × Outcome Collection

namespace Rule

variable (A : Algebra)

def plain (f : Collection → Outcome Collection) : Rule := ⟨name, fun c => (c.names, f c)⟩

/-! ### Common subexpressions -/

def share : Rule where
  name := "sympy_cse"
  run c := match c.all with
    | .error f => (c.names, .error f)
    | .ok as => match Sharing.run A c.names as with
      | .error f => (c.names, .error f)
      | .ok s =>
        let sub := s.definitions ++ s.assignments.take c.sub.length
        (s.names, do
          return { c.withLists (s.assignments.drop c.sub.length) (← Ordering.sort sub) with names := s.names })

def shareList (as : List Assignment) : Outcome (List Assignment) := do
  let s ← Sharing.run A {} as
  Ordering.sort (s.definitions ++ s.assignments)

/-! ### Known subexpressions -/

def useIn (s : Assignment) (e : Expr) : Outcome Expr :=
  Additive.replace A { sum := s.rhs, replacement := s.lhs, ofSum := .part 1.0 } e

def useInSubexpressions : Rule :=
  plain "subexpression_substitution_in_existing_subexpressions" fun c => do
    let sub ← c.subexpressions
    let new ← sub.zipIdx.mapM fun (s, i) => do
      let e ← (sub.take i).foldlM (fun e t => do Substitute.algebraic A t.rhs t.lhs (← useIn A t e)) s.rhs
      Assignment.make s.lhs e
    return c.withLists c.main new

def useInMain : Rule :=
  plain "subexpression_substitution_in_main_assignments" fun c => do
    let main ← c.main.mapM fun a => do
      Assignment.make a.lhs (← (← c.subexpressions).foldlM (fun e t => useIn A t e) a.rhs)
    return { c with main }

/-! ### New subexpressions -/

def define (c : Collection) (parts : Exprs) (spare : Nat) (sort : Bool := true) :
    SymbolSource × Outcome Collection :=
  let table : Table Expr Expr := (parts.zip (c.names.take parts.length)).foldl (fun t (p, x) => .insert t p x) []
  let names := c.names.drop (parts.length + spare)
  (names, do return { ← c.replace A { table, define := true, onLeft := false, sort } with names })

/-- The inverses in an expression; powers are not taken apart. -/
def divisors : Expr → Exprs
  | .atom _ => []
  | .node h as => match h with
    | .access .. => []
    | .pow =>
      let negative := match as with
        | [_, x] => x.isNumber && A.is .integer x && A.is .negative x
        | _ => false
      if negative then [.node h as] else []
    | _ => (as.map divisors).foldr unionNew []

def nameDivisions : Rule where
  name := "add_subexpressions_for_divisions"
  run c := match c.all with
    | .error f => (c.names, .error f)
    | .ok as =>
      let ds := as.foldl (fun ds a => unionNew ds (divisors A a.rhs)) []
      let sorted := (ds.map fun d => (Text.plain A d, d)).mergeSort fun a b => a.1 ≤ b.1
      define A c (sorted.map (·.2)) 1

def addends : Expr → Exprs
  | .atom _ => []
  | .node h as => match h with
    | .access .. => []
    | .add => (if as.all fun a => !a.any (·.isAdd) then as else []) ++ as.flatMap addends
    | _ => as.flatMap addends

def nameTerms : Rule where
  name := "add_subexpressions_for_sums"
  run c := match c.all with
    | .error f => (c.names, .error f)
    | .ok as =>
      let ts := (as.flatMap fun a => addends a.rhs).filter fun t => !t.isSymbol || t.isAccess
      define A c ts 1

/-- Names all values read from fields, so that all reads come before all writes. -/
def nameReads (ofSub ofMain : Bool) : Rule where
  name := "add_subexpressions_for_field_reads"
  run c := match (if ofSub then c.subexpressions else .ok []) with
    | .error f => (c.names, .error f)
    | .ok sub =>
      let as := sub ++ if ofMain then c.main else []
      let reads := as.foldl (fun rs a => unionNew rs (Visit.all (·.isAccess) a.rhs)) []
      define A c reads 0 false

/-! ### The same operation on all right sides -/

def onMain (f : Expr → Outcome Expr) : Rule :=
  plain name fun c => do return { c with main := ← c.main.mapM fun a => do Assignment.make a.lhs (← f a.rhs) }

def onSubexpressions (f : Expr → Outcome Expr) : Rule :=
  plain name fun c => do
    return c.withLists c.main (← (← c.subexpressions).mapM fun a => do Assignment.make a.lhs (← f a.rhs))

end Rule

/-!
## Assignment — strategies

A strategy applies rules one after the other; it can report the work that is left after each of them.
-/

structure Strategy where
  rules : List Rule

variable (s : Strategy)

namespace Strategy

variable (A : Algebra) (s : Strategy) (c : Collection)

def apply : Outcome Collection := s.rules.foldlM (fun c r => (r.run c).2) c

def stages : Outcome (List (String × Collection)) := do
  return (← s.rules.foldlM (fun acc r => do
    let d ← (r.run acc.1).2
    return (d, acc.2 ++ [(r.name, d)])) (c, [])).2

structure Row where
  name : String
  adds : Int
  muls : Int
  divs : Int

def Row.total (r : Row) : Int := r.adds + r.muls + r.divs

def report : Outcome (List Row) := do
  let row := fun name c => do
    let k ← c.cost A
    return (⟨name, k.adds, k.muls, k.divs⟩ : Row)
  return (← row "OriginalTerm" c) :: (← (← s.stages c).mapM fun (n, d) => row n d)

def reportText (rows : List Row) : String :=
  let line := fun time r => s!"{r.name},{time},{r.adds},{r.muls},{r.divs},{r.total}\n"
  let lines := rows.zipIdx.map fun (r, i) => line (if i = 0 then "-" else "# ms") r
  "Name, Adds, Muls, Divs, Runtime\n" ++ .join lines

def reportHtml (rows : List Row) : String :=
  let line := fun time r =>
    s!"<tr><td>{r.name}</td><td>{time}</td> <td>{r.adds}</td> <td>{r.muls}</td> <td>{r.divs}</td>  " ++
      s!"<td>{r.total}</td> </tr>"
  let lines := rows.zipIdx.map fun (r, i) => line (if i = 0 then "-" else "# ms") r
  "<table style=\"border:none\"><tr><th>Name</th><th>Runtime</th><th>Adds</th><th>Muls</th><th>Divs</th>" ++
    "<th>Total</th></tr>" ++ .join lines ++ "</table>"

def showText (only : Exprs) (c : Collection) : Outcome String := do
  let one := fun title c => do
    if only.isEmpty then return title ++ Lines.indent "   " (← c.text A)
    else return title ++ "\n".intercalate ((← c.filter only).main.map (·.text A))
  let first ← one "Initial Version" c
  return first ++ .join (← (← s.stages c).mapM fun (n, d) => one n d)

def showHtml (only : Exprs) (c : Collection) : Outcome String := do
  let one := fun title c => do
    let body ← if only.isEmpty then c.html A
      else do pure ("\n".intercalate (← (← c.filter only).main.mapM fun a => do return "$$" ++ (← a.latex A) ++ "$$"))
    return s!"<h5 style=\"padding-bottom:10px\">{title}</h5> <div style=\"padding-left:20px;\">" ++ body ++ "</div>"
  let first ← one "Initial Version" c
  return first ++ .join (← (← s.stages c).mapM fun (n, d) => one n d)

def text : String := "Simplification Strategy:\n" ++ .join (s.rules.map fun r => s!" - {r.name}\n")

end Strategy

end StencilForge
