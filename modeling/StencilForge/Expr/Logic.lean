import StencilForge.Expr.Standard

/-!
# Expr — comparisons

A comparison is decided where both sides are numbers or the sign of their difference is known.  Complex and undefined
operands, and truth values, cannot be ordered.
-/

namespace StencilForge.Relation

variable (A : Algebra)

def isTruth : Expr → Bool
  | .bool _ => true
  | .node (.rel _) _ | .node .and _ | .node .or _ | .node .not _ => true
  | _ => false

def numericOrder (a b : Expr) : Option Ordering :=
  match a, b with
  | .num m, .num n => Number.compare? m n
  | _, _ =>
    let d := A.sub a b
    if a.isNumber && b.isNumber then d.approxSign else none

def differenceFact : Rel → Fact
  | .lt => .extNegative
  | .gt => .extPositive
  | .le => .extNonpositive
  | _ => .extNonnegative

def decideOrder (r : Rel) (a b : Expr) : Option Bool :=
  match numericOrder A a b with
  | some o => some (r.holds o)
  | none =>
    let fa := A.facts a
    let fb := A.facts b
    if !(fa.is .extReal && fb.is .extReal) then none
    else
      let low := fa.is .infinite && fa.is .extNegative || fb.is .infinite && fb.is .extPositive
      let high := fa.is .infinite && fa.is .extPositive || fb.is .infinite && fb.is .extNegative
      if low && (r == .le || r == .gt) then some (r == .le)
      else if high && (r == .lt || r == .ge) then some (r == .ge)
      else
        let d := A.sub a b
        if d.isNan then none else A.ask (differenceFact r) d

def decideEqual (a b : Expr) : Option Bool :=
  let sameNumber := match a, b with
    | .num m, .num n => m.sameValue n
    | _, _ => false
  if a == b || sameNumber then some true
  else match a, b with
    | .bool _, .bool _ => some false
    | _, _ =>
      if !(a.isSymbol || b.isSymbol) && a.isBoolean != b.isBoolean then some false
      else if a.isBoolean && !a.isSymbol || b.isBoolean && !b.isSymbol then none
      else
        let fa := A.facts a
        let fb := A.facts b
        if fa.is .infinite && fb.fails .infinite || fa.fails .infinite && fb.is .infinite then some false
        else match numericOrder A a b with
          | some o => some (o == .eq)
          | none => A.ask .zero (A.sub a b)

def build (r : Rel) (a b : Expr) : Outcome Expr :=
  match r with
  | .eq => .ok (match decideEqual A a b with
      | some v => .bool v
      | none => .rel .eq a b)
  | .ne => .ok (match decideEqual A a b with
      | some v => .bool (!v)
      | none => .rel .ne a b)
  | r =>
    if isTruth a || isTruth b then raise .mistyped
    else if A.isNot .extReal a || A.isNot .extReal b || a.isNan || b.isNan then raise .mistyped
    else .ok (match decideOrder A r a b with
      | some v => .bool v
      | none => .rel r a b)

/-- Longer expressions stand behind shorter ones. -/
def follows (a b : Expr) : Bool := (compare a.nodeCount b.nodeCount).then (SortKey.order (A.key a) (A.key b)) == .gt

/-- Numbers on the right, sides in order, and no leading minus on the left. -/
def canonical : Expr → Expr
  | .rel r a b =>
    let (r, a, b) :=
      if b.isNumber then
        match a, b with
        | .num m, .num n => if n.lt m then (r.flip, b, a) else (r, a, b)
        | _, _ => (r, a, b)
      else if a.isNumber then (r.flip, b, a)
      else if follows A a b then (r.flip, b, a)
      else (r, a, b)
    let flipped := fun r a b => Expr.rel r.flip (A.neg a) (A.neg b)
    let atomic := fun
      | .bool _ => true
      | _ => false
    if atomic a || atomic b || isTruth a || isTruth b then .rel r a b
    else if Elementary.negative A a then flipped r a b
    else if !b.isNumber && Elementary.negative A b && follows A a (A.neg b) then flipped r.flip b a
    else .rel r a b
  | e => e

def negated : Expr → Expr
  | .rel r a b => .rel r.negate a b
  | e => e

end StencilForge.Relation

/-!
## Expr — truth values

Equivalent conditions are kept once, a condition and its opposite decide the whole, and what is left is sorted.
-/

namespace StencilForge.Logic

variable (A : Algebra) (xs : Exprs)

def asTruth (e : Expr) : Outcome Expr :=
  match e with
  | .num n =>
    if n.sameValue .one then .ok (.bool true) else if n.isZero then .ok (.bool false)
    else raise .mistyped
  | .sym _ | .node (.access ..) _ => match A.ask .zero e with
    | some z => .ok (.bool (!z))
    | none => .ok e
  | e => if e.isBoolean then .ok e else raise .mistyped

/-- Drops repeated comparisons; `none` if one is the opposite of another. -/
def distinct : Exprs → Exprs → Exprs → Option Exprs
  | [], _, kept => some kept
  | x :: r, seen, kept => match x with
    | .node (.rel _) _ =>
      let c := Relation.canonical A x
      if seen.contains c then distinct r seen kept
      else if seen.contains (Relation.canonical A (Relation.negated c)) then none
      else distinct r (seen ++ [c]) (kept ++ [x])
    | x => distinct r seen (kept ++ [x])

def sorted : Exprs := Arrange.sortBySize A xs

def join (conj : Bool) (xs : Exprs) : Outcome Expr := do
  let head := if conj then .and else .or
  let xs ← xs.mapM (asTruth A)
  match distinct A xs.reverse [] [] with
  | none => return .bool (!conj)
  | some xs =>
    if xs.any (· == .bool (!conj)) then return .bool (!conj)
    else
      let xs := (xs.filter (· != .bool conj)).flatMap fun x => match x with
        | .node h as => if h == head then as else [x]
        | x => [x]
      match unionNew [] xs with
      | [] => return .bool conj
      | [x] => return x
      | xs => return .node head (sorted A xs)

def conj : Outcome Expr := join A true xs
def disj : Outcome Expr := join A false xs

def neg : Expr → Expr
  | .bool b => .bool (!b)
  | .num n => .bool n.isZero
  | .node .not [y] => y
  | .rel r a b => .rel r.negate a b
  | x => .node .not [x]

end StencilForge.Logic
