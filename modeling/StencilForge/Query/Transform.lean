import StencilForge.Boundary.Guard
import StencilForge.Expr.Additive
import StencilForge.Expr.Smooth
import StencilForge.Query.Statement

/-!
# Questions — transforming expressions
-/

namespace StencilForge.Query

open Document

def readMatch (dflt : Additive.Match) : Option Json → Additive.Match
  | none => dflt
  | some .null => .any
  | some (.float x) => .part x
  | some (.int n) => .count n
  | some (.bool b) => .count (if b then 1 else 0)
  | some _ => .invalid

def readPairs (c : Names) (j : Json) : Outcome (Table Expr Expr) := do
  return (← readTable c j).foldl (fun t (a, b) => .insert t a b) []

def readValues : Json → Cost.Values
  | .str "real" => .real
  | .str "int" => .whole
  | .null => .any
  | _ => .nothing

def costOf (v : Cost.Values) : Formula → Outcome Cost
  | .expr e => Cost.ofExpr A v e
  | .assignment a => Cost.ofExpr A v a.rhs
  | .matrix _ => bad
  | .list fs => .sum <$> fs.mapM (costOf v)

def readMarks (c : Names) (j : Json) : Outcome Guard.Marks := do
  let mark ← match (j.get? "boundary_flag").getD (.str "neumann_flag") with
    | .str s => pure (.expr (.typedSymbol s Guard.flagType))
    | v => readOperand c true v
  return { flags := ← c.field (strD j "flag"), mark, inverted := boolD j "inverse_flag" }

def transform (j : Json) : Answer := do
  let c ← readNames j
  let exprs := fun k => do readExprs c (← asList (field j k))
  let one := fun k => readExpr c (field j k)
  let answer := fun e => do return .obj [("expr", ← ofExpr e)]
  let formula := fun (f : Formula) g => do return .obj [("expr", ← ofFormula (← f.mapAllM g))]
  match strD j "fn" with
  | "prod" => do answer (A.prod (← exprs "seq"))
  | "remove_small_floats" => do
    match ← one "threshold" with
    | .num n => answer (← Split.withoutSmall A n (← one "expr"))
    | _ => bad
  | "is_integer_sequence" => do return .bool ((← exprs "seq").all (Split.isCuttable A))
  | "scalar_product" => do answer (A.sum (((← exprs "a").zip (← exprs "b")).map fun (x, y) => A.mul2 x y))
  | "kronecker_delta" => do
    let xs ← exprs "args"
    return .int (if xs.all (some · == xs.head?) then 1 else 0)
  | "tanh_step" => do
    let x ← one "x"
    let width ← exprD c j "steepness" (.num (.ofFloat 0.0001))
    match strD j "kind" "right", j "loc" with
    | "left", p => answer (Smooth.falling A x (← readExpr c p) width)
    | "right", p => answer (Smooth.rising A x (← readExpr c p) width)
    | "middle", .arr [p, q] => answer (Smooth.between A x (← readExpr c p) (← readExpr c q) width)
    | _, _ => return .obj [("expr", .null)]
  | "multidimensional_sum" =>
    return .arr ((Tuples.below (natD j "i") (natD j "dim")).map fun t => .arr (t.map nat))
  | "normalize_product" => do return .arr (sorted (← (← one "expr").unitFactors.mapM ofExpr))
  | "symmetric_product" => do
    let lists ← listOf (listOf (readExpr c)) (j "args")
    return .arr (← (Tuples.ascending (!boolD j "diagonal" true) lists).mapM ofExprs)
  | "fast_subs" => do
    let t ← readPairs c (j "subs")
    formula (← readFormula c (j "expr")) (Substitute.table A t ·)
  | "is_constant" => do return .bool (← one "expr").symbols.isEmpty
  | "subs_additive" => do
    let p :=
      { sum := ← one "sub"
        replacement := ← one "replacement"
        ofSum := readMatch (.part 0.5) (j.get? "required_match_replacement")
        ofTarget := readMatch .any (j.get? "required_match_original") }
    answer (← Additive.replace A p (← one "expr"))
  | "second_order_products" => do
    let positive := match j.get? "positive" with
      | some (.bool b) => some b
      | _ => none
    let names := given (boolD j "mixed") []
    let (e, names) ← (Quadratic.products A (← exprs "symbols") positive (← one "expr")).run names
    let mixed ← names.elim (pure .null) fun t => ofAssignments (t.map fun (s, v) => ⟨s, v⟩)
    return .obj [("expr", ← ofExpr e), ("mixed", mixed)]
  | "higher_order" => do answer (← Quadratic.truncate A (← exprs "symbols") (intD j "order" 3) (← one "expr"))
  | "complete_square" => do
    let (e, s) ← Quadratic.completeSquare A (← one "symbol") (← one "new") (← one "expr")
    let s ← s.elim (pure .null) fun (n, v) => ofExprs [n, v]
    return .obj [("expr", ← ofExpr (← Build.expand A e)), ("subs", s)]
  | "squares_in_exp" => do answer (← Quadratic.completeInExp A 0 (← exprs "symbols") (← one "expr"))
  | "common_factor" => do
    let e ← one "expr"
    let f := Split.commonFactor A e
    ofExprs [f, A.quotient e f]
  | "count_ops" => do
    return ofCost (← costOf (readValues ((j.get? "only_type").getD (.str "real"))) (← readFormulas c j))
  | "common_denominator" => do answer (.int (Split.commonDenominator (← one "expr")))
  | "symmetric_part" => do answer (← Split.evenPart A (← exprs "symbols") (← one "expr"))
  | "symbol_creator" => texts <$> asStrs (j "names")
  | "fast_divisions" => do formula (← readFormulas c j) (Fast.divisions A)
  | "fast_sqrts" => do formula (← readFormulas c j) (Fast.roots A)
  | "diff_placeholder" => do
    let e ← one "expr"
    let d ← Differentiate.along A (← one "by") e
    let defs ← Placeholder.definitionsIn A [e]
    return .obj [("diff", ← ofExpr d), ("removed", .arr [← ofExpr (← Placeholder.strip A e), ← ofAssignments defs])]
  | "prepend_placeholder" => do ofAssignments (← Placeholder.prepend A (← readAssignments c (j "list")))
  | "topological" => do ofAssignments (← Ordering.sort (← readAssignments c (j "list")))
  | "typing" => do
    let (body, _) ← (readStatements (← asList (j "list"))).run { names := c }
    let t := SymbolTypes.ofDefault (strD j "default" "double") body
    let pairs := t.entries.map fun (n, t) => Json.arr [.str n, .str t]
    return .arr [.arr (sorted pairs), .str (t.fallback.getD "")]
  | "neumann_inkernel" => do
    let fields ← (← asStrs (j "apply_to")).mapM c.field
    ofAssignments (← Guard.reads A (← readMarks c j) fields (← readAssignments c (j "list")))
  | _ => bad

end StencilForge.Query
