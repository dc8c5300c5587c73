import StencilForge.Expr.Count
import StencilForge.Expr.Visit

/-!
# Expr — simple forms of conditions

A comparison of linear expressions has an only unknown alone on the left, or several with coefficients without common
divisor, and the constant on the right.  A form that needs many more operations is not taken.
-/

namespace StencilForge.Comparison

open Relation

variable (A : Algebra)

/-- Symbols, and the elements of arrays. -/
def unknowns (e : Expr) : Exprs :=
  unionNew [] (Visit.all (fun x => x.isSymbol || match x with
    | .node .element _ | .node (.resolved ..) _ => true
    | _ => false) e)

/-- Nothing if the sum is not linear. -/
def linear (xs : Exprs) (e : Expr) : Option (Exprs × Expr) :=
  let start := (xs.map fun _ => .zero, .zero)
  e.terms.foldlM (fun (cs, c) t =>
    let (own, rest) := t.factors.partition fun f => xs.any f.has
    match own with
    | [] => some (cs, A.add2 c t)
    | [f] => (xs.findIdx? (· == f)).map fun i => (cs.modify i (A.add2 · (A.mul rest)), c)
    | _ => none) start

def commonDivisor (cs : Exprs) : Expr :=
  match cs.mapM Expr.rat? with
  | some qs => .rat (mkRat (qs.foldl (fun d q => Int.gcd d q.num) 0 : Nat) (qs.foldl (fun d q => Nat.lcm d q.den) 1))
  | none => .one

def solved (r : Rel) (a b x : Expr) : Outcome Expr :=
  match linear A [x] (A.sub a b) with
  | some ([m], c) =>
    if m.isZero then build A r c .zero
    else
      let v := A.neg (A.div c m)
      if A.is .negative m then build A r v x else build A r x v
  | _ => .ok (.rel r a b)

def gathered (r : Rel) (a b : Expr) (xs : Exprs) : Outcome Expr :=
  match linear A xs (A.sub a b) with
  | some (ms, c) =>
    let d := commonDivisor ms
    if d.isZero then build A r c .zero
    else
      let ts := (ms.zip xs).filterMap fun (m, x) => if m.isZero then none else some (A.mul2 (A.div m d) x)
      if !c.isZero then build A r (A.add ts) (A.neg (A.div c d))
      else match ts with
        | t :: rest => build A r t (A.neg (A.add rest))
        | [] => build A r .zero .zero
  | none => .ok (.rel r a b)

def canonical (e : Expr) : Expr :=
  match e with
  | .rel .. => Relation.canonical A e
  | e => e

def simplify (e : Expr) : Outcome Expr := do
  let new ← match Relation.canonical A e with
    | .rel r a b => match Arrange.sortBySize A (unknowns (.rel r a b)) with
      | [] => pure (.rel r a b)
      | [x] => solved A r a b x
      | xs => gathered A r a b xs
    | e => pure e
  let new := canonical A new
  return if 10 * Count.operations A new < 17 * Count.operations A e then new else e

def simplifyAll : Expr → Outcome Expr
  | .node h as => match h with
    | .rel _ => simplify A (.node h as)
    | .and => do Logic.conj A (← as.mapM simplifyAll)
    | .or => do Logic.disj A (← as.mapM simplifyAll)
    | .not => match as with
      | [x] => do return Logic.neg (← simplifyAll x)
      | as => .ok (.node .not as)
    | h => .ok (.node h as)
  | e => .ok e

end StencilForge.Comparison
