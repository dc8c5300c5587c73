import StencilForge.Expr.Fraction

/-!
# Expr — how long an expression is

`Count.operations` counts the operations that writing an expression takes.
-/

namespace StencilForge.Count

variable (A : Algebra)

def isOperation : Head → Bool
  | .pow | .fn _ | .piecewise | .cast _ | .placeholder .. | .derivative => true
  | _ => false

/-- `fuel` bounds the number of steps. -/
def pending : Nat → Exprs → Int
  | 0, _ => 0
  | _, [] => 0
  | fuel + 1, e :: rest =>
    let more := fun (n : Int) (next : Exprs) => n + pending fuel (next ++ rest)
    let inner := fun (e : Expr) => if e.isSymbol then [] else e.args
    match e with
    | .num (.rat q) => more ((if q < 0 then 1 else 0) + (if q.den != 1 then 1 else 0)) []
    | .mul fs =>
      let negative := e.hasNegCoeff
      let e := if negative then (match fs with
          | .num c :: r => if c.isNegOne then .mulOf r else A.neg e
          | _ => A.neg e) else e
      let sign : Int := if negative then 1 else 0
      let (n, d) := Fraction.split A e
      match n.int? with
      | some k => more (sign + 1 + (if k < 0 then 1 else 0)) [d]
      | none =>
        if !d.isOne then more (sign + 1) (n :: (if d.isInteger then [] else [d]))
        else match e with
          | .mul gs => more (sign + gs.length - 1) gs
          | .pow _ x => if x.isNegOne then more (sign + 1) [e] else more (sign + 1) e.args
          | .add _ => more sign [e]
          | e => more (sign + (if e.isSymbol then 0 else match e with
              | .node h _ => if isOperation h then 1 else 0
              | _ => 0)) (inner e)
    | .add ts =>
      let negs := ts.filter Expr.hasNegCoeff
      let count : Int := ts.length - 1 + (if negs.length = ts.length then 1 else 0)
      more count (ts.map fun t => if t.hasNegCoeff then A.neg t else t)
    | .pow b x => if x.isNegOne then more 1 [b] else more 1 [b, x]
    | .fn .min as | .fn .max as | .node .and as | .node .or as => more (as.length - 1) as
    | .node .not as => more 1 as
    | .node h _ => more (if isOperation h then 1 else 0) (inner e)
    | .atom _ => more 0 []

/-- Comparisons count at the top or under logic alone. -/
def operations : Expr → Int
  | .atom a => pending A 8 [.atom a]
  | .node h as => match h with
    | .rel _ | .and | .or | .not => (as.map operations).foldl (· + ·) 1
    | h => pending A (4 * (Expr.node h as).size + 16) [.node h as]

end StencilForge.Count
