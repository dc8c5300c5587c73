import StencilForge.Expr.Visit

/-!
# Expr — smooth steps

A step function can be replaced by a smooth one, which rises within a small length.
-/

namespace StencilForge.Smooth

variable (A : Algebra)

def falling (x place width : Expr) : Expr :=
  A.quotient (A.sub .one (A.apply .tanh [A.quotient (A.sub x place) width])) 2

def rising (x place width : Expr) : Expr :=
  A.quotient (A.add2 .one (A.apply .tanh [A.quotient (A.sub x place) width])) 2

def between (x first second width : Expr) : Expr :=
  A.sub .one (A.add2 (falling A x first width) (rising A x second width))

end StencilForge.Smooth

/-!
## Expr — fast approximations

Divisions and square roots that a graphics processor may compute approximately are marked in place of powers.
-/

namespace StencilForge.Fast

variable (A : Algebra)

/-- That has to be certain. -/
def isDivision (x : Expr) : Outcome Bool := do
  if !A.is .integer x then return false
  match ← Build.node A (.rel .lt) [x, .zero] with
  | .bool b => return b
  | _ => raise .mistyped

/-- A divisor alone stands below one. -/
def quotient : Bool × Expr → Expr
  | (true, d) => .fn .fastDivision [.one, d]
  | (false, e) => e

def join (ps : List (Bool × Expr)) : Expr :=
  let above := A.mul ((ps.filter (!·.1)).map (·.2))
  match ps.filter (·.1) with
  | [] => above
  | below => .fn .fastDivision [above, A.mul (below.map (·.2))]

/-- Whether to divide by it. -/
def factor : Expr → Outcome (Bool × Expr)
  | .atom a => .ok (false, .atom a)
  | .node h as => match h, as with
    | .mul, fs => do return (false, join A (← fs.mapM factor))
    | .pow, [b, x] => do
      if ← isDivision A x then return (true, A.pow (quotient (← factor b)) (A.neg x))
      else return (false, A.pow (quotient (← factor b)) (quotient (← factor x)))
    | .access .., _ => .ok (false, .node h as)
    | h, as => do return (false, ← Build.node A h (Visit.withHidden h as ((← as.mapM factor).map quotient)))

def divisions (e : Expr) : Outcome Expr := do return quotient (← factor A e)

def root? : Expr → Option Expr
  | .pow b (.num (.rat q)) =>
    if q.den = 2 then some (A.pow (.fn (if q.num < 0 then .fastInvSqrt else .fastSqrt) [b]) (.int q.num.natAbs)) else none
  | _ => none

/-- What stands under a root is left alone. -/
def roots (e : Expr) : Outcome Expr := Visit.replace A (fun e => (root? A e).map .ok) e

end StencilForge.Fast
