import StencilForge.Expr.Arrange

/-!
# Expr — numerators and denominators

`Fraction.split` takes the factors with negative exponents apart, `Fraction.numerDenom` brings an expression over one
denominator, `Fraction.primitive` takes the common rational factor out of a sum.
-/

namespace StencilForge.Fraction

variable (A : Algebra) (e : Expr)

def primitive (ts : Exprs) : Rat × Expr :=
  let cs : List (Rat × Expr) := ts.map fun t => match t.coeffMul with
    | (.rat q, r) => (q, r)
    | _ => (1, t)
  let g := cs.foldl (fun g c => Nat.gcd g c.1.num.natAbs) 0
  let l := cs.foldl (fun l c => Nat.lcm l c.1.den) 1
  if g = 1 && l = 1 then (1, .add ts)
  else
    let ts : Exprs := cs.map fun (q, r) => A.keepCoeff (.rat (q * l / g)) r
    let ts : Exprs := match ts with
      | .num n :: r => .num n :: Expr.sorted r
      | ts => Expr.sorted ts
    (mkRat g l, .addOf ts)

/-- By its value, or by its leading coefficient. -/
def negativeExponent : Bool := A.is .negative e || (!A.is .negative (A.neg e) && e.hasNegCoeff)

/-- `fuel` bounds the nesting depth. -/
def numerDenomDeep : Nat → Expr → Expr × Expr
  | 0, e => (e, .one)
  | fuel + 1, e => match e with
    | .num (.rat q) => (.int q.num, .int q.den)
    | .mul fs =>
      let ps := fs.map (numerDenomDeep fuel)
      (A.mul (ps.map (·.1)), A.mul (ps.map (·.2)))
    | .pow b x =>
      let (n, d) := numerDenomDeep fuel b
      let negative := negativeExponent A x
      let whole := A.is .integer x
      let (n, d) := if A.is .extReal d || whole then (n, d) else (b, .one)
      let (n, d) := match A.ask .nonpositive d with
        | some true => (A.neg n, A.neg d)
        | some false => (n, d)
        | none => if whole then (n, d) else (b, .one)
      if negative then (A.pow d (A.neg x), A.pow n (A.neg x)) else (A.pow n x, A.pow d x)
    | .fn .exp [x] => if negativeExponent A x then (.one, A.apply .exp [A.neg x]) else (e, .one)
    | .add ts =>
      let (c, s) := primitive A ts
      let ncon := .rat c.num
      let dcon := .rat c.den
      let groups : Table Expr Exprs := s.terms.foldl (fun g t =>
        let (n, d) := numerDenomDeep fuel t
        .push g d n) []
      match groups with
      | [(d, ns)] => (A.add (ns.map (A.keepCoeff ncon)), A.keepCoeff dcon d)
      | _ =>
        let gs := groups.map fun (d, ns) => (d, A.add ns)
        let n := A.add (gs.zipIdx.map fun ((_, n), i) =>
          A.mul (gs.zipIdx.map fun ((d, _), j) => if i = j then n else d))
        (A.keepCoeff ncon n, A.keepCoeff dcon (A.mul (gs.map (·.1))))
    | e => (e, .one)

def numerDenom : Expr × Expr := numerDenomDeep A (2 * e.depth + 3) e

/-- The factors above and below; `power` says where a power belongs. -/
def partsBy (power : Expr → Expr → Expr → Exprs × Exprs) : Exprs × Exprs :=
  let ps := e.factors.map fun f => match f with
    | .pow _ _ | .fn .exp [_] => let (b, x) := A.baseExp f; power f b x
    | .num (.rat q) => if q.den = 1 then ([f], []) else (if q.num = 1 then [] else [.int q.num], [.int q.den])
    | _ => ([f], [])
  (ps.flatMap (·.1), ps.flatMap (·.2))

def parts : Exprs × Exprs := partsBy A e fun f b x =>
  if A.is .negative x then ([], [if x.isNegOne then b else A.pow b (A.neg x)])
  else if !A.is .positive x && x.isMul then
    let (n, d) := numerDenom A f
    (if n.isOne then [] else [n], [d])
  else ([f], [])

def split : Expr × Expr :=
  let (ns, ds) := parts A e
  (A.mul ns, A.mul ds)

end StencilForge.Fraction
