import StencilForge.Expr.Standard

/-!
# Expr — expansion, step by step

A product of sums as a sum of products, an integer power of a sum as the sum of its monomials, a power of a product or
with a sum in the exponent as a product, the logarithm of a product as a sum; at the outermost operation only.
-/

namespace StencilForge.Expand

variable (A : Algebra)

def multiplySums : Nat → List Exprs → Exprs
  | 0, _ => []
  | _, [] => []
  | _, [ts] => ts
  | fuel + 1, sums =>
    let half := sums.length / 2
    let left := multiplySums fuel (sums.take half)
    let right := multiplySums fuel (sums.drop half)
    (A.add (left.flatMap fun a => right.map fun b => A.mul [a, b])).terms

def product : Nat → Expr → Expr
  | 0, e => e
  | fuel + 1, e@(.mul _) =>
    let (n, d) := Fraction.split A e
    let (n, d) := if d.isMul then (if n.isMul then product fuel n else n, product fuel d) else (n, d)
    match A.div n d with
    | .mul fs =>
      let sums := fs.filterMap fun
        | .add ts => some ts
        | _ => none
      if sums.isEmpty then .mul fs
      else
        let plain := A.mul (fs.filter (!·.isAdd))
        A.add ((multiplySums A sums.length sums).map fun t =>
          let t := A.mul [plain, t]
          if t.isMul && t.args.any Expr.isAdd then product fuel t else t)
    | e => e
  | _, e => e

/-- The ways to distribute `n` over `m` places. -/
def exponents : Nat → Nat → List Nats
  | 0, n => if n = 0 then [[]] else []
  | m + 1, n => (List.range (n + 1)).flatMap fun k => (exponents m (n - k)).map (k :: ·)

def factorial : Nat → Nat
  | 0 => 1
  | n + 1 => (n + 1) * factorial n

def monomials (ts : Exprs) (n : Nat) : Expr :=
  A.add ((exponents ts.length n).map fun ks =>
    let c := ks.foldl (fun c k => c / factorial k) (factorial n)
    A.mul (.int c :: (ts.zip ks).filterMap fun (t, k) => if k = 0 then none else some (A.pow t (.int k))))

def power (e : Expr) : Expr :=
  match e with
  | .pow b (.num (.rat q)) =>
    match b with
    | .add ts =>
      let positive := fun (q : Rat) =>
        let n := q.num.toNat / q.den
        if n = 0 then .pow b (.rat q)
        else if q.den = 1 then monomials A ts n
        else
          let root := A.pow b (.rat (q - n))
          let whole := if n = 1 then b else monomials A ts n
          A.add (whole.terms.map fun t => A.mul [t, root])
      if q > 0 then positive q
      else if q < -1 then A.inv (positive (-q))
      else e
    | _ => e
  | .pow (.num n) (.add ts) =>
    let nums := ts.filter Expr.isNum
    if nums.isEmpty then e
    else A.mul ((nums.map fun t => A.pow (.num n) t) ++ [A.pow (.num n) (A.add (ts.filter (!·.isNum)))])
  | e => e

def logarithm : Nat → Expr → Expr
  | 0, e => e
  | fuel + 1, .fn .log [x] =>
    let sub := fun y => match A.apply .log [y] with
      | e@(.fn .log _) => logarithm fuel e
      | e => e
    match x with
    | .num (.rat q) =>
      if q.den = 1 then match Factor.perfectPower? q.num.natAbs with
        | some (b, k) => if q > 1 then A.mul [.int k, A.apply .log [.int b]] else .fn .log [x]
        | none => .fn .log [x]
      else A.sub (A.apply .log [.int q.num]) (A.apply .log [.int q.den])
    | .mul fs =>
      let (out, stay) := fs.foldl (fun (out, stay) f =>
        if A.is .positive f then (out ++ [sub f], stay)
        else if A.is .negative f then (out ++ [A.apply .log [A.neg f]], stay ++ [.negOne])
        else (out, stay ++ [f])) (([] : Exprs), ([] : Exprs))
      A.add (out ++ [A.apply .log [A.mul stay]])
    | .pow b k =>
      if A.is .extReal k && (A.is .positive b ||
          (A.is .positive (A.add [k, .one]) && A.is .nonpositive (A.sub k .one))) then
        A.mul [k, sub b]
      else .fn .log [x]
    | x => .fn .log [x]
  | _, e => e

def powerBase (e : Expr) : Expr :=
  match e with
  | .pow (.mul fs) x =>
    if A.is .integer x then A.mul (fs.map fun f => A.pow f x)
    else if x.isNum then e
    else
      let (out, stay) := ((Power.signs A fs).foldImag A).separate A
      A.mul ((out.map fun f => A.pow f x) ++ (if stay.isEmpty then [] else [.pow (A.mul stay) x]))
  | e => e

def powerExp : Expr → Expr
  | .pow b (.add ts) => A.mul (ts.map (A.pow b))
  | .fn .exp [.add ts] => A.mul (ts.map fun t => A.apply .exp [t])
  | e => e

end StencilForge.Expand
