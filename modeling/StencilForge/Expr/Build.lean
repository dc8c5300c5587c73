import StencilForge.Expr.Expand
import StencilForge.Expr.Piecewise
import StencilForge.Expr.Typing

/-!
# Expr — building any node

`Build.node` builds a node as if for the first time; `Build.expand` expands an expression everywhere.  They belong
together, because a derivative expands its operand when it is built.
-/

namespace StencilForge.Build

open IntegerFunction

variable (A : Algebra)

def cast (k : CastKind) (e : Expr) (rest : Exprs) : Expr :=
  .node (.cast (if e.isBoolean then .boolean else k)) (e :: rest)

def extremum (f : Fn) (xs : Exprs) : Outcome Expr :=
  if xs.any fun x => A.isNot .extReal x && !x.isNan || x == .const .complexInf || x.isBoolean && !x.isSymbol then
    raise .invalid
  else .ok (A.apply f xs)

def function (f : Fn) (xs : Exprs) : Outcome Expr :=
  if isTyped f then typed f xs
  else if isRounding f then rounding false f xs
  else match f with
    | .min | .max => extremum A f xs
    | f => .ok (A.apply f xs)

def diff (expand : Expr → Outcome Expr) (e target mark : Expr) : Outcome Expr := do
  if e.num?.any Number.isZero then return .zero
  else return .node .diff [← expand e, target, mark]

def nodeWith (expand : Expr → Outcome Expr) (h : Head) (as : Exprs) : Outcome Expr :=
  match h, as with
  | .add, as => .ok (A.add as)
  | .mul, as => .ok (A.mul as)
  | .pow, [b, e] => .ok (A.pow b e)
  | .fn f, as => function A f as
  | .rel r, [a, b] => Relation.build A r a b
  | .and, as => Logic.conj A as
  | .or, as => Logic.disj A as
  | .not, [a] => .ok (Logic.neg a)
  | .piecewise, as => Piecewise.build A (as.filterMap fun
      | .branch v c => some (v, c)
      | _ => none)
  | .cast k, e :: rest => .ok (cast k e rest)
  | .diff, [e, t, m] => diff expand e t m
  | h, as => .ok (.node h as)

mutual

/-- Innermost parts first; says whether anything changed.  Casts and field accesses are not entered. -/
def everywhere (build : Head → Exprs → Outcome Expr) (step : Expr → Expr) : Expr → Outcome (Expr × Bool)
  | .atom a => .ok (stepAt step (.atom a) false)
  | .node h as => match h with
    | .access .. | .cast _ | .fn .addressOf => .ok (stepAt step (.node h as) false)
    | h => do
      let (bs, hit) ← everywhereList build step as
      let e ← if hit then build h bs else .ok (.node h as)
      return stepAt step e hit

def everywhereList (build : Head → Exprs → Outcome Expr) (step : Expr → Expr) :
    Exprs → Outcome (Exprs × Bool)
  | [] => .ok ([], false)
  | a :: as => do
    let (b, hit) ← everywhere build step a
    let (bs, hits) ← everywhereList build step as
    return (b :: bs, hit || hits)

def stepAt (step : Expr → Expr) (e : Expr) (hit : Bool) : Expr × Bool :=
  let f := step e
  if f == e then (e, hit) else (f, true)

end

def steps (build : Head → Exprs → Outcome Expr) (ss : List (Expr → Expr)) (e : Expr) : Outcome Expr :=
  ss.foldlM (fun e s => do return (← everywhere build s e).1) e

def settle (build : Head → Exprs → Outcome Expr) (ss : List (Expr → Expr)) : Nat → Expr → Outcome Expr
  | 0, e => .ok e
  | fuel + 1, e => do
    let f ← steps build ss e
    if f == e then return e else settle build ss fuel f

/-- `fuel` bounds the nesting of derivatives. -/
def expandDeep : Nat → Expr → Outcome Expr
  | 0, e => .ok e
  | fuel + 1, e => do
    let build := nodeWith A (expandDeep fuel)
    let log := Expand.logarithm A 20
    let mul := Expand.product A 40
    let e ← steps build [log, Expand.power A, mul, Expand.powerBase A, Expand.powerExp A] e
    settle build [Expand.power A, mul, log] 20 e

def expand (e : Expr) : Outcome Expr := expandDeep A (e.depth + 1) e

def node (h : Head) (as : Exprs) : Outcome Expr := nodeWith A (expand A) h as

end StencilForge.Build
