import StencilForge.Expr.Product

/-!
# Expr — powers

Numbers to rational powers are evaluated as far as roots come out exactly; a power of a power is merged where that is
right for every value of the base.
-/

namespace StencilForge.Power

open Binary

variable (A : Algebra) (fs : Exprs)

/-- What comes out of the root, the roots with a smaller index, and the primes that stay under the root. -/
structure Radicals where
  outside : Nat := 1
  roots : List (Nat × Rat) := []
  inside : List (Nat × Nat) := []

def radicals (factors : List (Nat × Nat)) (p q : Nat) : Radicals :=
  factors.foldl (fun r (prime, m) =>
    let m := m * p
    let (d, m) := (m / q, m % q)
    let r := { r with outside := r.outside * prime ^ d }
    if m = 0 then r
    else
      let g := Nat.gcd m q
      if g != 1 then { r with roots := r.roots ++ [(prime, mkRat (m / g) (q / g))] }
      else { r with inside := r.inside ++ [(prime, m)] }) {}

def natRoot (n : Nat) (e : Rat) : Option Expr :=
  let p := e.num.toNat
  match Factor.exactRoot? n e.den with
  | some r => some (.int (r ^ p : Nat))
  | none =>
    let factors := (Factor.perfectPower? n).elim (Factor.primes n) fun f => [f]
    let r := radicals factors p e.den
    let g := r.inside.foldl (fun g f => Nat.gcd g f.2) 0
    let inside := r.inside.foldl (fun m f => m * f.1 ^ (f.2 / g)) 1
    if inside = n && r.outside = 1 && r.roots.isEmpty then none
    else
      let roots := r.roots.map fun (b, e) => A.pow (.int b) (.rat e)
      some (A.mul (.int r.outside :: roots ++ [A.pow (.int inside) (.rat (mkRat g e.den))]))

def negOnePow (e : Rat) : Option Expr :=
  if e.den = 1 then some (if e.num % 2 = 0 then .one else .negOne)
  else if e = mkRat 1 2 then some .iUnit
  else if e.den = 2 then some (A.pow .iUnit (.int e.num))
  else
    let (i, f) := Product.splitRat e
    if i = 0 then none else some (A.mul [A.pow .negOne (.int i), A.pow .negOne (.rat f)])

def ratPow (b e : Rat) : Option Expr :=
  if b = 0 then some (if e > 0 then .zero else .const .complexInf)
  else if b = -1 then negOnePow A e
  else if e.den = 1 then some (.num (Product.numberPow (.rat b) e.num))
  else if b.den = 1 then
    if e = mkRat 1 2 && b < 0 then some (A.mul [.iUnit, A.pow (.rat (-b)) .half])
    else if e < 0 then some inverted
    else (natRoot A b.num.natAbs e).map fun r => if b < 0 then A.mul [r, A.pow .negOne (.rat e)] else r
  else if e < 0 then some inverted
  else if b.num != 1 then some (A.mul [A.pow (.int b.num) (.rat e), A.pow (.int b.den) (.rat (-e))])
  else
    some (A.mul [A.pow (.int b.den) (.rat (mkRat (e.num * (e.den - 1)) e.den)),
      A.pow (A.pow (.int b.den) (.int e.num)) .negOne])
where
  inverted : Expr :=
    if b < 0 then A.mul [A.pow .negOne (.rat e), A.pow (.rat (-1 / b)) (.rat (-e))] else A.pow (.rat (1 / b)) (.rat (-e))

def floatPow (b : Binary) (e : Number) : Option Expr :=
  let p := Number.precision
  if b.isZero then (if e.isPos then some .zero else some (.num .inf))
  else match e with
    | .rat q =>
      if q.den = 1 then some (.num (.ofBinary (powInt p b q.num)))
      else if q.num = 1 && q.den % 2 = 1 && b.isNeg then
        some (A.mul [.pow .negOne (.rat q), A.pow (.num (.float b.neg)) (.rat q)])
      else real (ofRat p q)
    | .float x => real x
    | _ => none
where
  /-- A negative base gives a complex number, an imaginary one where twice the power is whole. -/
  real x : Option Expr :=
    let p := Number.precision
    if !b.isNeg then some (.num (.ofBinary (pow p b x)))
    else if x.isInteger then some (.num (.ofBinary (powInt p b x.floor)))
    else if (add p x x).isInteger then
      let n := (add p x x).floor
      let r := powInt p (sqrt (p + 10) b.neg) n
      some (A.mul [.num (.ofBinary (if n % 4 = 1 then r else r.neg)), .iUnit])
    else
      let r := pow (p + 20) b.neg x
      let a := mul (p + 20) (pi (p + 20)) x
      let re := mul p r (cos (p + 20) a)
      let im := mul p r (sin (p + 20) a)
      some (A.add [.num (.ofBinary re), A.mul [.num (.ofBinary im), .iUnit]])

def imaginaryPow : Expr → Option Expr
  | .num (.rat q) =>
    if q.den = 1 then
      match q.num % 4 with
      | 0 => some .one
      | 1 => some .iUnit
      | 2 => some .negOne
      | _ => some (.mul [.negOne, .iUnit])
    else some (A.pow .negOne (.rat (q / 2)))
  | _ => none

def infPow (n : Number) (e : Expr) : Option Expr :=
  match n with
  | .inf =>
    if A.is .extPositive e then some (.num .inf)
    else if A.is .extNegative e then some .zero
    else none
  | _ => match e.int? with
    | some k =>
      if k > 0 then some (.num (if k % 2 = 0 then .inf else .negInf))
      else some .zero
    | none => given e.isNumber (A.mul [A.pow .negOne e, A.pow (.num .inf) e])

def numPow (n : Number) (e : Expr) : Option Expr :=
  match n, e with
  | .rat b, .num (.rat q) => ratPow A b q
  | .rat b, .num (.float x) =>
    if b = 0 then some (if x.isNeg then .const .complexInf else .zero)
    else floatPow A (ofRat Number.precision b) (.float x)
  | .rat b, .num .inf =>
    if b > 1 then some (.num .inf)
    else if b < -1 then some (A.add [.num .inf, A.mul [.iUnit, .num .inf]])
    else if b = -1 then some .nan else some .zero
  | .rat b, .num .negInf =>
    if b = 0 then some (.const .complexInf) else if b = -1 then some .nan
    else some (A.pow (.rat (1 / b)) (.num .inf))
  | .float b, .num x => floatPow A b x
  | .rat b, _ =>
    if b = 0 then
      if A.is .positive e then some .zero
      else if A.is .negative e then some (.const .complexInf)
      else if A.isNot .extReal e then some .nan
      else
        let (c, t) := e.coeffMul
        if c.isNeg then some (A.pow (.const .complexInf) t)
        else given (!c.isOne) (A.pow .zero t)
    else if b = -1 then if A.is .odd e then some .negOne else given (A.is .even e) .one
    else if b < 0 && A.is .even e then some (A.pow (.rat (-b)) e)
    else none
  | .inf, _ | .negInf, _ => infPow A n e
  | .nan, _ => some .nan
  | .float _, _ => none

def complexInfPow : Expr → Option Expr
  | .num n => if n.isZero then some .nan else if n.isPos then some (.const .complexInf) else some .zero
  | _ => none

structure Signs where
  nonneg : Exprs := []
  other : Exprs := []
  neg : Exprs := []
  imag : Nat := 0

def signs : Signs :=
  fs.foldl (fun s f => match f with
    | .iUnit => { s with imag := s.imag + 1 }
    | f => match A.ask .extNonnegative f with
      | some true => { s with nonneg := s.nonneg ++ [f] }
      | some false => { s with neg := s.neg ++ [f] }
      | none => { s with other := s.other ++ [f] }) {}

def Signs.foldImag (s : Signs) : Signs :=
  let flip := fun s => match s.neg.reverse with
    | n :: r =>
      let m := A.neg n
      { s with neg := r.reverse, nonneg := if m.isOne then s.nonneg else s.nonneg ++ [m] }
    | [] => { s with neg := [.negOne] }
  match s.imag % 4 with
  | 0 => s
  | 1 => { s with other := s.other ++ [.iUnit] }
  | 2 => flip s
  | _ => let s := flip s; { s with other := s.other ++ [.iUnit] }

def Signs.separate (s : Signs) : Exprs × Exprs :=
  match s.neg with
  | [] => (s.nonneg, s.other)
  | [n] =>
    if s.other.isEmpty then (s.nonneg, [n])
    else if n.isNum && !n.isNegOne then (s.nonneg ++ [A.neg n], s.other ++ [.negOne])
    else (s.nonneg, s.other ++ [n])
  | n :: r =>
    let (o, neg) := if s.other.isEmpty && n.isNum then (n, r) else (.one, n :: r)
    let o := if neg.length % 2 = 1 then A.neg o else o
    (s.nonneg ++ neg.map A.neg, if o.isOne then s.other else s.other ++ [o])

/-- Factors known not to be negative get the power each. -/
def splitBase (e : Expr) : Expr :=
  let (out, stay) := ((signs A fs).foldImag A).separate A
  let isRoot := fun x => e.isRational && match x with
    | .pow b q => q.isRational && b.isNumber
    | _ => false
  let evaluated := (out.filter isRoot).map fun x => A.pow x e
  let kept := (out.filter (!isRoot ·)).map fun x => .pow x e
  let rest := if stay.isEmpty then [] else [.pow (A.mul stay) e]
  A.mul (evaluated ++ kept ++ rest)

def mulPow (e : Expr) : Expr :=
  if e.isInteger then A.mul (fs.map fun f => .pow f e)
  else if e.isRational || e.isFloat then splitBase A fs e
  else .pow (.mul fs) e

/-- Of a sum with binary coefficients the largest one is taken out. -/
def addPow (ts : Exprs) (e : Expr) : Option Expr :=
  match e with
  | .num x =>
    if x.isRational && (Expr.add ts).isNumber || x.abs.sameValue .one || !x.isFinite then none
    else
      let cs := ts.map Expr.coeffMul
      if cs.any (·.1.isFloat) then
        let big := cs.foldl (fun b c => if c.1.abs.lt b then b else c.1.abs) .zero
        if big.isPos && !big.sameValue .one then
          let unit := fun (c : Number) => if c.abs.sameValue big then (if c.isNeg then .negOne else .one) else c.div big
          let s := A.add (cs.map fun (c, t) => A.mul [.num (unit c), t])
          some (A.mul [A.pow (.num big) e, A.pow s e])
        else none
      else none
  | _ => none

def isHalf : Expr → Bool
  | .num (.rat q) => q.den == 2
  | .mul (.num (.rat q) :: r) => q.den == 2 && A.is .integer (.mulOf (.int q.num :: r))
  | _ => false

def powPow (b e x : Expr) : Option Expr :=
  if A.is .integer x then some (A.pow b (A.mul [e, x]))
  else if A.is .extReal e then
    if e.isNegOne && isHalf A x && (A.ask .negative b).isSome then
      if A.is .negative b then some (A.mul [A.pow .negOne x, A.pow (A.neg b) (A.mul [e, x])])
      else some (A.pow b (A.neg x))
    else
      let b := if !e.isNegOne && A.is .even e && A.is .extReal b then A.apply .abs [b] else b
      let small := match e with
        | .num n => n.abs.lt .one || n.sameValue .one
        | _ => false
      given (small || A.is .extNonnegative b) (A.pow b (A.mul [e, x]))
  else none

def ofBase (b e : Expr) : Option Expr :=
  match b with
  | .num n => numPow A n e
  | .const .euler => some (A.apply .exp [e])
  | .iUnit => imaginaryPow A e
  | .const .complexInf => complexInfPow e
  | .add ts => addPow A ts e
  | .mul fs => some (mulPow A fs e)
  | .pow _ _ => let (b, x) := A.baseExp b; powPow A b x e
  | .fn .exp [x] => powPow A (.const .euler) x e
  | .fn .abs [x] =>
    if A.is .extReal x then
      if A.is .even e then some (A.pow x e)
      else e.int?.bind fun k => given (k != -1 && k % 2 != 0) (A.mul [A.pow x (.int (k - 1)), b])
    else none
  | .fn .sign [x] => given (A.isNot .zero x && A.is .even e) .one
  | _ => none

/-- The other factors if the logarithm of the base is in the denominator. -/
def logQuotient? (b : Expr) : Expr → Option Exprs
  | .pow (.fn .log [c]) (.num n) => given (n.isNegOne && c == b) []
  | .mul fs =>
    let isLog := fun
      | .pow (.fn .log [c]) (.num n) => n.isNegOne && c == b
      | _ => false
    given (fs.any isLog) (fs.filter (!isLog ·))
  | _ => none

/-- Base and exponent are neither zero nor one. -/
def general (b e : Expr) : Expr :=
  (logQuotient? b e).elim ((ofBase A b e).getD (.pow b e)) fun fs => A.apply .exp [A.mul fs]

def build (b e : Expr) : Expr :=
  let plain := fun x => x.isSymbol || x.isNumber
  if e == .const .complexInf then .nan
  else if e.isZero then .one
  else if e.isOne then b
  else if e.isNegOne && b.num?.any Number.isZero then .const .complexInf
  else
    let flips := plain b && plain e && b.hasNegCoeff && A.is .integer e
    if flips && A.is .odd e then A.neg (A.pow (A.neg b) e)
    else
      let b := if flips && A.is .even e then A.neg b else b
      if b.isNan || e.isNan then .nan
      else if b.isOne then (if e.num?.any Number.isInfinite then .nan else .one)
      else general A b e

end StencilForge.Power
