import StencilForge.Expr.Build

/-!
# Expr — numbers in place of exact constants

`Numeric.of` replaces exact numbers by binary ones, and casts by what is cast; whole exponents and the factor minus
one stay.
-/

namespace StencilForge

namespace Numeric

open Build

variable (A : Algebra)

def value? (e : Expr) : Option Expr := do
  let v ← e.uncast.approx (Number.precision + 20)
  let part := fun b => .num (.ofBinary b.settle)
  return if v.im.isZero then part v.re else A.add2 (part v.re) (A.mul2 (part v.im) .iUnit)

mutual

def of : Expr → Outcome Expr
  | .atom a => match a with
    | .num _ | .const _ => .ok ((value? A (.atom a)).getD (.atom a))
    | a => .ok (.atom a)
  | .node h as => match h, as with
    | .add, as => do
      let fixed := as.filter (!·.hasSymbols)
      match value? A (A.add fixed) with
      | some n =>
        let rest := (← as.mapM of).zip as |>.filterMap fun (b, a) => given a.hasSymbols b
        node A .add (n :: rest)
      | none => do node A .add (← as.mapM of)
    | .mul, .num c :: as => do
      let rest ← as.mapM of
      if c == .negOne then return A.neg (← node A .mul rest)
      else node A .mul ((value? A (.num c)).getD (.num c) :: rest)
    | .mul, as => do node A .mul (← as.mapM of)
    | .pow, [b, x] => do
      let b ← of b
      let y ← of x
      node A .pow [b, if x.isInteger then x else y]
    | .rel r, as => do node A (.rel r) (← as.mapM of)
    | .and, as => do node A .and (← as.mapM of)
    | .or, as => do node A .or (← as.mapM of)
    | .piecewise, bs => do node A .piecewise (← ofBranches bs)
    | .cast _, e :: _ => of e
    | .fn f, as => .ok ((value? A (.fn f as)).getD (.fn f as))
    | h, as => .ok (.node h as)

def ofBranches : Exprs → Outcome Exprs
  | [] => .ok []
  | .node .branch [v, c] :: r => do return .branch (← of v) c :: (← ofBranches r)
  | b :: r => do return b :: (← ofBranches r)

end

end Numeric

/-!
## Expr — the cost of expressions

`Cost.ofExpr` counts arithmetic operations on values of a given kind.
-/

structure Cost where
  adds : Int := 0
  muls : Int := 0
  divs : Int := 0
  sqrts : Int := 0
  fastSqrts : Int := 0
  fastInvSqrts : Int := 0
  fastDivs : Int := 0
  deriving DecidableEq, Repr

namespace Cost

def plus (a b : Cost) : Cost :=
  { adds := a.adds + b.adds, muls := a.muls + b.muls, divs := a.divs + b.divs, sqrts := a.sqrts + b.sqrts
    fastSqrts := a.fastSqrts + b.fastSqrts, fastInvSqrts := a.fastInvSqrts + b.fastInvSqrts
    fastDivs := a.fastDivs + b.fastDivs }

def sum (cs : List Cost) : Cost := cs.foldl plus {}

inductive Values where
  | real
  | whole
  | any
  | nothing
  deriving DecidableEq, Repr

def counts (v : Values) (e : Expr) : Outcome Bool :=
  if v == .any then .ok true
  else match Typing.typeOf e with
    | .ok t => match t.innermost with
      | .record .. => raise .noSuchPart
      | t => .ok (match v with
        | .real => t.isFloat
        | .whole => t.isInt
        | _ => false)
    | .error f => if f.kind == .invalid then .ok false else .error f

variable (A : Algebra) (v : Values)

def isFree : Expr → Bool
  | .num n => n.sameValue .one || n.sameValue .negOne
  | _ => false

def ofPower : Expr → Outcome Cost
  | .num (.rat q) =>
    if q.den = 1 then .ok (if q.num ≥ 0 then { muls := q.num - 1 } else { muls := -q.num - 2, divs := 1 })
    else raise .mistyped
  | .num n => if n.sameValue .half then .ok { sqrts := 1 } else raise .mistyped
  | _ => raise .mistyped

mutual

def visit : Expr → Outcome Cost
  | .atom _ => .ok {}
  | .node h as => do
    let e := .node h as
    match h, as with
    | .add, as => do
      let own : Cost := if ← counts v e then { adds := as.length - 1 } else {}
      return own.plus (sum (← as.mapM visit))
    | .mul, as => do
      let free := (as.filter isFree).length
      let own : Cost := if ← counts v e then { muls := as.length - 1 - free } else {}
      return own.plus (sum (← as.mapM visit))
    | .access .., _ | .element, _ | .resolved .., _ => return {}
    | .pow, [b, x] =>
      if A.is .integer e then return sum [← visit b, ← visit x]
      else if ← counts v b then ofPower x
      else return sum [← visit b, ← visit x]
    | .cast _, a :: r => if A.is .integer e then return sum ((← visit a) :: (← r.mapM visit)) else visit a
    | .piecewise, bs => if A.is .integer e then return sum (← bs.mapM visit) else return sum (← visitValues bs)
    | .fn f, as => do
      let own : Cost := if A.is .integer e then {} else match f with
        | .fastSqrt => { fastSqrts := 1 }
        | .fastInvSqrt => { fastInvSqrts := 1 }
        | .fastDivision => { fastDivs := 1 }
        | _ => {}
      return own.plus (sum (← as.mapM visit))
    | _, as => return sum (← as.mapM visit)

def visitValues : Exprs → Outcome (List Cost)
  | [] => .ok []
  | .node .branch (a :: _) :: r => do return (← visit a) :: (← visitValues r)
  | _ :: r => visitValues r

end

def ofExpr (e : Expr) : Outcome Cost := do visit A v (← Numeric.of A e)

end Cost

end StencilForge
