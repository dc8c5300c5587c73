import StencilForge.Assignment.Rule
import StencilForge.Expr.Evaluate
import StencilForge.Expr.Match
import StencilForge.Query.Stencil
import StencilForge.Query.Transform

/-!
# Questions — collections of assignments
-/

namespace StencilForge.Query

open Document Rule Evaluate

variable (c : Collection)

/-! ### Documents of collections -/

def readCollection (c : Names) (j : Json) : Outcome Collection := do
  let list := fun k => ((list? j k).getD []).mapM (readAssignment c)
  let tidy := fun as => if boolD j "dicts" then Collection.ofTable (as.map fun a => (a.lhs, a.rhs)) else pure as
  return { main := ← tidy (← list "main"), sub := ← tidy (← list "sub"), hints := (pairs j "hints").map (·.1),
           names := { stem := strD j "symbol" "xi" } }

def ofCollection : Answer := do
  let sub ← match c.lone, c.sub with
    | true, [a] => ofAssignment a
    | _, as => ofAssignments as
  return .obj [("main", ← ofAssignments c.main), ("sub", sub)]

def ofSet (es : Exprs) : Answer := do return .arr (sorted (← es.mapM ofExpr))

def ofValue : Value → Json
  | .whole n => ofInt n
  | .real x => ofFloat x

def readValue : Json → Outcome Value
  | .float x => .ok (.real x)
  | .int n => .ok (.whole n)
  | .bool b => .ok (.whole (if b then 1 else 0))
  | .arr [.str "float", .str s] => .real <$> readFloat s
  | _ => bad

def ruleOf : String → Outcome Rule
  | "sympy_cse" => .ok (share A)
  | "divisions" => .ok (nameDivisions A)
  | "sums" => .ok (nameTerms A)
  | "subst_existing" => .ok (useInSubexpressions A)
  | "subst_main" => .ok (useInMain A)
  | "expand_main" => .ok (onMain "expand" (Build.expand A))
  | "expand_sub" => .ok (onSubexpressions "expand" (Build.expand A))
  | "double_main" => .ok (onMain "double" fun e => .ok (A.mul2 e 2))
  | "double_sub" => .ok (onSubexpressions "double" fun e => .ok (A.mul2 e 2))
  | _ => bad

/-! ### Steps -/

def lastRights (as : List Assignment) : Table Expr Expr := as.foldl (fun t a => .insert t a.lhs a.rhs) []

def evaluateMain (xs : Exprs) (fixed : Table Expr Expr) (vs : List Value) :
    Outcome (Table Expr Value) := do
  let c ← if fixed.isEmpty then pure c else c.replace A { table := fixed, onLeft := false }
  let main := (← c.inline A []).main
  if xs.length != vs.length then raise .mistyped
  (lastRights main).mapM fun (x, e) => do return (x, ← value A true (xs.zip vs) e)

def kindOf : String → Outcome (Expr → Bool)
  | "symbol" => .ok (·.isSymbol)
  | "pow" => .ok (·.isPow)
  | "int" => .ok (·.isInteger)
  | "mul" => .ok (·.isMul)
  | _ => bad

def mapBothSides (f : Expr → Outcome Expr) : Outcome Collection := do
  let main ← c.main.mapM (·.mapBoth f)
  return { c with main, sub := ← c.sub.mapM (·.mapBoth f) }

/-- Of several values of a symbol the last one counts. -/
def matchAll (p : Assignment) : Outcome (Table Expr Expr) := do
  return (← c.all).foldl (fun t a =>
    match Match.inTurn A (Match.pattern A) [p.lhs, p.rhs] [a.lhs, a.rhs] [] with
    | some b => b.foldl (fun t (x, e) => Table.insert t x e) t
    | none => t) []

def changing (r : Outcome Collection) : Collection × Answer :=
  keeping c (do let d ← r; return (d, ← ofCollection d))

/-- It stays even if sorting then fails. -/
def addSubexpression (names : Names) (c : Collection) (as : List Json) : Collection × Answer :=
  let given := match as with
    | _ :: .null :: _ | [_] | [] => none
    | _ :: x :: _ => some x
  let prepared : Outcome (Expr × Assignment) := do
    let e ← readExpr names (as.headD .null)
    let x ← given.elim (pure c.names.head) (readExpr names)
    return (x, ← Assignment.make x e)
  let c := if given.isNone then { c with names := c.names.drop 1 } else c
  match prepared with
  | .error f => (c, .error f)
  | .ok (x, a) =>
    if c.lone then (c, raise .noSuchPart)
    else
      let c := { c with sub := c.sub ++ [a] }
      let sort := match as with
        | [_, _, s] => asBool s
        | _ => true
      keeping c (do
        let d ← if sort then do pure { c with sub := ← Ordering.sort c.sub } else pure c
        return (d, .arr [← ofExpr x, ← ofCollection d]))

def flagAt (as : List Json) (i : Nat) (d : Bool) : Bool := (as[i]?.map asBool).getD d

def sortStep (as : List Json) : Collection × Answer :=
  let first : Outcome Collection := do
    if flagAt as 0 true then return { c with sub := ← Ordering.sort (← c.subexpressions) } else return c
  match first with
  | .error f => (c, .error f)
  | .ok c => changing c (do if flagAt as 1 true then return { c with main := ← Ordering.sort c.main } else return c)

/-- The collection keeps its assignments but the symbols are used up. -/
def readsStep (as : List Json) : Collection × Answer :=
  let (names, r) := (nameReads A (flagAt as 0 true) (flagAt as 1 true)).run c
  ({ c with names }, do
    let d ← r
    return .obj [("inlined", ← ofCollection (← d.inline A [])),
      ("reads", ← ofSet (d.sub.map (·.rhs))), ("symbols", ← ofExprs (d.sub.map (·.lhs)))])

def collectionStep (names : Names) (c : Collection) (m : String) (as : List Json) : Collection × Answer :=
  let same := fun (r : Answer) => (c, r)
  let change := changing c
  match m, as with
  | "state", _ | "copy", _ | "discretize_2nd", _ => change (.ok c)
  | "sort", as => sortStep c as
  | "set_main", [ps] => change (do return { c with main := ← Collection.ofTable (← readTable names ps) })
  | "set_sub", [ps] => change (do return { c with sub := ← Collection.ofTable (← readTable names ps), lone := false })
  | "subs", [ps] => change (do
      let t ← readPairs names ps
      c.rebuilt (·.mapBoth (Substitute.algebraicTable A t)))
  | "with_subs", ps :: rest => change (do
      let flag := flagAt rest
      c.replace A { table := ← readPairs names ps, define := flag 0 false, onLeft := flag 1 true, sort := flag 2 true })
  | "merge", [d] => change (do c.merge A (← readCollection names d))
  | "filter", [.arr xs] => change (do c.filter (← readExprs names xs))
  | "drop_unused", _ => change c.withoutUnused
  | "insert", [x] => change (do c.insert A (← readExpr names x))
  | "inline", [.arr xs] => change (do c.inline A (← readExprs names xs))
  | "inline", _ => change (c.inline A [])
  | "rule", [.str n] => match ruleOf n with
    | .error f => same (.error f)
    | .ok r =>
      let (left, d) := r.run c
      changing { c with names := left } d
  | "fast_divisions", _ => change (mapBothSides c (Fast.divisions A))
  | "fast_sqrts", _ => change (mapBothSides c (Fast.roots A))
  | "discretize", [dx, .str s] => change (do
      let dx ← readExpr names dx
      let s ← schemeOf s
      let f := Spatial.discretize A s dx
      return c.withLists (← c.main.mapM (·.mapRight f)) (← (← c.subexpressions).mapM (·.mapRight f)))
  | "replace", [old, new] => change (do
      let old ← readExpr names old
      let new ← readExpr names new
      c.rebuilt (·.mapBoth (Match.replaceInner A old new)))
  | "add_sub", as => addSubexpression names c as
  | "hint", .str k :: _ =>
    if c.hints.contains k then same (raiseWith .violated "This hint already exists")
    else
      let c := { c with hints := c.hints ++ [k] }
      (c, .ok (sortedTexts c.hints))
  | "free", _ => same (do ofSet (← c.free))
  | "bound", _ => same (do ofSet (← c.bound))
  | "defined", _ => same (ofSet c.defined)
  | "dependent", [.arr xs] => same (do ofSet (← c.needed (← readExprs names xs)))
  | "find", [.str k] => same (do ofSet (← c.find (← kindOf k)))
  | "ops", _ => same (do return ofCost (← c.cost A))
  | "lambdify", [.arr xs, .arr fixed, .arr vs] => same (lambda xs fixed vs)
  | "lambdify", [.arr xs, .arr vs] | "lambdify", [.arr xs, .null, .arr vs] => same (lambda xs [] vs)
  | "str", _ => same (do return .arr [.str (← c.text A), .str (c.title A)])
  | "html", _ => same (do return .str (← c.html A))
  | "iter", _ => same (ofAssignments c.main)
  | "dicts", _ => same (do
      let pairs := fun as => .arr <$> (lastRights as).mapM fun (x, e) => ofExprs [x, e]
      return .arr [← pairs c.main, ← pairs (← c.subexpressions)])
  | "equal", [d] => same (do return .bool (← c.sameAs (← readCollection names d)))
  | "cse_list", _ => same (do ofAssignments (← shareList A (← c.all)))
  | "match", [p, .arr ws] => same (do
      let ws ← ws.mapM asStr
      let aliases := ws.map fun w => (w, .sym ⟨w, .wild⟩)
      let p ← readAssignment { names with aliases := aliases ++ names.aliases } p
      ofTable ofExpr (← matchAll c p))
  | "field_reads", as => readsStep c as
  | _, _ => same bad
where
  lambda (xs fixed vs : List Json) : Answer := do
    let t ← evaluateMain c (← readExprs names xs) (← readPairs names (.arr fixed)) (← vs.mapM readValue)
    return .arr (← t.mapM fun (x, v) => do return .arr [← ofExpr x, ofValue v])

def collection (fault : Failure → Json) (j : Json) : Answer := do
  let names ← readNames j
  let c ← readCollection names (j "ac")
  return runSteps fault c (← steps j) (collectionStep names)

/-! ### Strategies -/

def strategy (j : Json) : Answer := do
  let names ← readNames j
  let c ← readCollection names (j "ac")
  let rules ← (← asList (j "rules")).mapM fun r => do ruleOf (← asStr r)
  let s : Strategy := ⟨rules⟩
  let result ← s.apply c
  let rows ← s.report A c
  let only ← readExprs names ((list? j "restrict").getD [])
  let shown := strD j "show"
  let text ← if shown == "" then pure [] else do pure [("show", .str (← s.showText A only c))]
  -- the text has used up the symbols of its first rule
  let later := match rules with
    | r :: _ => { c with names := (r.run c).1 }
    | [] => c
  let html ← if shown == "html" then do pure [("html", .str (← s.showHtml A only later))] else pure []
  let tables := if boolD j "report" then
      [("tables", Json.arr [.str (Strategy.reportText rows), .str (Strategy.reportHtml rows)])]
    else []
  return .obj ([("repr", .str s.text), ("count", nat rules.length), ("result", ← ofCollection result),
    ("report", .arr (rows.map fun r => .arr [.str r.name, .int r.adds, .int r.muls, .int r.divs, .int r.total]))] ++
    text ++ html ++ tables)

end StencilForge.Query
