import StencilForge.Expr.Substitute

/-!
# Expr — patterns

`Match.pattern` finds values for the wild symbols that turn a pattern into a given expression.  Sums and products are
matched in any order; a wild base with a whole exponent matches the root of anything.
-/

namespace StencilForge.Match

abbrev Binding := Table Expr Expr

variable (A : Algebra) (one : Expr → Expr → Binding → Option Binding)

def isWild : Expr → Bool
  | .sym s => s.kind == .wild
  | _ => false

/-- Nothing if that cannot be built. -/
def fill (b : Binding) (p : Expr) : Option Expr := (Substitute.exact A b p).toOption

def firstOf {α β : Type} (xs : List α) (f : α → Option β) : Option β :=
  xs.foldl (fun r x => match r with
    | some v => some v
    | none => f x) none

/-- Later arguments see the values found before. -/
def inTurn : Exprs → Exprs → Binding → Option Binding
  | [], [], b => some b
  | p :: ps, e :: es, b =>
    if p == e then inTurn ps es b
    else do
      let q ← fill A b p
      inTurn ps es (← one q e b)
  | _, _, _ => none

/-- `join` is the operation, `apart` takes a part out, `unit` is neutral. -/
def anyOrder (p e : Expr) (join : Exprs → Expr)
    (apart : Expr → Expr → Expr) (unit : Expr) (parts : Expr → Exprs) (b : Binding) : Option Binding :=
  if p == e then some b
  else
    let ps := Arrange.sortBySize A p.args
    let isOpen := fun (q : Expr) => q.any isWild && !e.has q
    let (wild, exact) := (ps.filter isOpen, ps.filter (!isOpen ·))
    if !exact.isEmpty then
      let x := join exact
      let free := e.symbols
      if !free.isEmpty && x.symbols.any (!free.contains ·) then none
      else one (join wild) (apart e x) b
    else
      let es := (unit :: Arrange.sortBySize A (parts e)).reverse
      firstOf es fun last => firstOf wild.reverse fun w => do
        let b₁ ← one w last b
        one (← fill A b₁ p) e b₁

/-- `fuel` bounds the number of steps into the pattern. -/
def patternDeep : Nat → Expr → Expr → Binding → Option Binding
  | 0, _, _, _ => none
  | fuel + 1, p, e, b =>
    let one := patternDeep fuel
    if isWild p then some (.insert b p e)
    else match p with
      | .atom _ => given (p == e) b
      | .pow q x =>
        if e.isOne && (one x .zero b).isSome then one x .zero b
        else if e.isBoolean then none
        else
          let (c, y) := A.baseExp e
          if q.isSymbol && x.isInteger && !e.isZero then
            if A.is .rational y then one q (A.pow c (A.quotient y x)) b
            else one q (A.pow e (A.inv x)) b
          else
            let byParts := do
              let b₁ ← one q c b
              one (← fill A b₁ x) y b₁
            match byParts with
            | some r => some r
            | none => match e with
              | .pow c y => inTurn A one [q, x] [c, y] b
              | _ => none
      | .add _ => if e.isBoolean then none else anyOrder A one p e A.add A.sub .zero Expr.terms b
      | .mul _ => if e.isBoolean then none else anyOrder A one p e A.mul A.quotient .one Expr.factors b
      | .node h ps => match e with
        | .node k es => if Expr.sameHead h k && ps.length = es.length then inTurn A one ps es b else none
        | .atom _ => none

def pattern (p e : Expr) (b : Binding) : Option Binding := patternDeep A (4 * (p.size + e.size) + 8) p e b

/-! ### Replacing equal parts -/

def replaceInner (old new : Expr) : Expr → Outcome Expr
  | .atom a => .ok (if .atom a == old then new else .atom a)
  | .node h as => do
    let e ← match h with
      | .access .. => pure (.node h as)
      | h => do
        let bs ← as.mapM (replaceInner old new)
        if Expr.sameList as bs then pure (Expr.node h as) else Build.node A h (Visit.withHidden h as bs)
    return if e == old then new else e

end StencilForge.Match
