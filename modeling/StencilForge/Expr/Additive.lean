import StencilForge.Expr.Collect
import StencilForge.Expr.Substitute

/-!
# Expr — replacing a sum inside sums

`3 x + 3 y + z` contains `x + y` three times.  `Additive.replace` puts a shorter expression in place of such sums,
also when only some terms match; what is then too much is taken away again.
-/

namespace StencilForge.Additive

inductive Match where
  | any
  | part (x : Float)
  | count (n : Int)
  | invalid

def Match.terms (size : Nat) : Match → Outcome Int
  | any => .ok 1
  | part x => do
    require (decide (0 ≤ x) && decide (x ≤ 1)) .violated
    return max 1 (((Number.ofFloat (x * Float.ofNat size)).floor?).getD 0)
  | count n => do
    require (0 < n) .violated
    return n
  | invalid => raiseWith .invalid "Invalid parameter"

structure Pattern where
  sum : Expr
  replacement : Expr
  ofSum : Match := .part 0.5
  ofTarget : Match := .any

variable (A : Algebra) (p : Pattern) (needed : Int)

def factors (whole part : Table Expr Expr) : Table Expr Nat :=
  part.foldl (fun t (m, c) => match Table.get? whole m with
    | some d => .alter (A.quotient d c) (fun n => n.getD 0 + 1) t
    | none => t) []

def mostFrequent (t : Table Expr Nat) : Option (Expr × Nat) :=
  t.foldl (fun best p => match best with
    | some b => if p.2 > b.2 then some p else best
    | none => some p) none

def atSum? (e : Expr) : Outcome (Option Expr) := do
  let .add _ := e
    | return none
  let own ← p.ofTarget.terms (max e.args.length p.sum.args.length)
  let needed := max needed own
  let whole := Coefficient.table A e
  let part := Coefficient.table A p.sum
  let common := part.filter fun (m, _) => (Table.get? whole m).isSome
  if common.length < needed then return none
  match mostFrequent (factors A whole part) with
  | some (c, n) =>
    if n < needed then return none
    return some (A.add2 (A.sub e (A.mul2 c p.sum)) (A.mul2 c p.replacement))
  | none => return none

/-- A product with zero is zero. -/
def rebuilt (h : Head) (as : Exprs) : Expr :=
  match h with
  | .mul => if as.any (·.isZero) then .zero else Visit.plain .mul as
  | h => Visit.plain h as

/-- Others cannot be built without being evaluated. -/
def isPlain : Head → Bool
  | .branch | .diff | .diffOp | .resolved .. | .fn .addressOf => false
  | .fn f => !(IntegerFunction.isTyped f || IntegerFunction.isRounding f)
  | _ => true

/-- `needed` terms have to match. -/
def visit : Expr → Outcome Expr
  | .atom a => .ok (.atom a)
  | .node h as => do
    match ← atSum? A p needed (.node h as) with
    | some e => return e
    | none => match h with
      | .access .. => return .node h as
      | h => do
        let bs ← as.mapM visit
        require (isPlain h) .mistyped
        return rebuilt h (Visit.withHidden h as bs)

def replace (e : Expr) : Outcome Expr := do visit A p (← p.ofSum.terms p.sum.args.length) e

end StencilForge.Additive

/-!
## Expr — splitting

The factor that most terms have in common, the part that is even in variables, the least number that clears all
fractions.
-/

namespace StencilForge.Split

variable (A : Algebra)

/-- The absolute value of a coefficient that most terms have; one if all are different and one is among them. -/
def commonFactor (e : Expr) : Expr :=
  let counts : Table Expr Nat := (Coefficient.table A e).foldl (fun t (_, c) =>
    .alter (A.apply .abs [c]) (fun n => n.getD 0 + 1) t) []
  let best := counts.foldl (fun (b : Option (Expr × Nat)) p => match b with
    | some q => if p.2 > q.2 then some p else b
    | none => some p) none
  best.elim .one fun (c, n) => if n = 1 && counts.any (·.1.isOne) then .one else c

def evenPart (xs : Exprs) (e : Expr) : Outcome Expr := do
  let t : Table Expr Expr := xs.map fun x => (x, A.neg x)
  return A.mul2 .half (A.add2 e (← Substitute.algebraicTable A t e))

def commonDenominator (e : Expr) : Nat :=
  (Visit.all (·.isRational) e).foldl (fun n q => Nat.lcm n ((q.rat?.map (·.den)).getD 1)) 1

def withoutSmall (threshold : Number) (e : Expr) : Outcome Expr :=
  Visit.replace A (fun
    | .num (.float b) => given ((Number.float b).abs.lt threshold) (.ok .zero)
    | _ => none) e

def isCuttable (e : Expr) : Bool := e.isNumber && A.is .real e

end StencilForge.Split
