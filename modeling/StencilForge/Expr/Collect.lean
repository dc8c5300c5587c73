import StencilForge.Expr.Build

/-!
# Expr — coefficients

`Coefficient.of` is what stands before an expression in a sum, `Coefficient.table` the terms of a
sum with their numbers.
-/

namespace StencilForge.Coefficient

variable (A : Algebra)

def signedFactors (e : Expr) : Exprs :=
  match e.factors with
  | .num c :: r => if c.isNeg && !c.isNegOne then .negOne :: .num c.neg :: r else .num c :: r
  | fs => fs

/-- What stands before `x` in a sum; terms with other powers of `x` do not count. -/
def of (e x : Expr) : Expr :=
  if e == x then .one
  else if x.isZero then .zero
  else
    let xs := signedFactors x
    let co := e.terms.filterMap fun t =>
      let fs := signedFactors t
      let rest := fs.filter (!xs.contains ·)
      given (rest.length + xs.length = fs.length) (A.mul rest)
    if co.isEmpty then .zero else A.add co

def table (e : Expr) : Table Expr Expr :=
  match e with
  | .add ts =>
    let t : Table Expr Exprs := ts.foldl (fun t x =>
      let (c, m) := x.coeffMul
      let (c, m) := match x with
        | .num n => (n, Expr.one)
        | _ => (c, m)
      Table.push t m (.num c)) []
    t.map fun (m, cs) => (m, match cs with
      | [c] => c
      | cs => A.add cs)
  | .mul [.num c, r] => [(r, .num c)]
  | .num (.rat q) => if q = 0 then [(.zero, .one)] else [(.one, .rat q)]
  | e => [(e, .one)]

end StencilForge.Coefficient

/-!
## Expr — collecting terms

`Collect.along` writes a sum as a sum of the powers of given expressions, also inside products and powers.
-/

namespace StencilForge.Collect

variable (A : Algebra) (xs : Exprs)

def parts (f : Expr) : Expr × Number × Option Expr :=
  match f with
  | .pow b (.num n) => (b, n, none)
  | .pow b x => let (c, r) := x.coeffMul; (b, c, some r)
  | .fn .exp [.num (.rat q)] => (.const .euler, .rat q, none)
  | .fn .exp [.mul fs] => let (c, r) := (Expr.mul fs).coeffMulRational; (A.apply .exp [r], c, none)
  | f => (f, .one, none)

/-- The power of the first of the given expressions, and the other factors. -/
def split? (fs : Exprs) : Option (Expr × Expr) :=
  xs.findSome? fun x => do
    let i ← fs.findIdx? fun f => let (b, _, r) := parts A f; b == x && r.isNone
    let f ← fs[i]?
    some (f, A.mul (fs.eraseIdx i))

def terms (e : Expr) : Expr :=
  let (groups, rest) := e.terms.foldl (fun (g : Table Expr Exprs × Exprs) t =>
    match split? A xs (Expand.powerBase A t).factors with
    | some (x, c) => (.push g.1 x c, g.2)
    | none => (g.1, g.2 ++ [t])) ([], [])
  A.add ((groups.map fun (x, cs) => A.mul [x, A.add cs]) ++ (if rest.isEmpty then [] else [A.add rest]))

def along : Expr → Expr
  | .atom a => terms A xs (.atom a)
  | .node .add ts => terms A xs (A.add (ts.map along))
  | .node .mul fs => A.mul (fs.map along)
  | .node .pow [b, x] => A.pow (along b) x
  | e => terms A xs e

end StencilForge.Collect
