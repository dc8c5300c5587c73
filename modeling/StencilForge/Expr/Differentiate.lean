import StencilForge.Expr.Substitute

/-!
# Expr — derivatives by a variable

A derivative that cannot be taken stays as a node.  A function that stands for an expression has the derivatives of
that expression; those that are not constant get a name.
-/

namespace StencilForge.Differentiate

variable (A : Algebra)

def byName (e : Expr) : Exprs :=
  ((e.symbols.map fun x => (x.symbolName, x)).mergeSort fun a b => a.1 ≤ b.1).map (·.2)

def symbolFor (name : String) (x : Expr) : Expr := .symbol s!"_d{name}_d{x.symbolName}"

def outer (f : Fn) (x : Expr) : Option Expr :=
  let self := A.apply f [x]
  let square := fun e => A.pow e (.int 2)
  match f with
  | .exp => some self
  | .log => some (A.inv x)
  | .sin => some (A.apply .cos [x])
  | .cos => some (A.neg (A.apply .sin [x]))
  | .tan => some (A.add [.one, square self])
  | .cot => some (A.sub (A.neg .one) (square self))
  | .sinh => some (A.apply .cosh [x])
  | .cosh => some (A.apply .sinh [x])
  | .tanh => some (A.sub .one (square self))
  | .coth => some (A.neg (A.pow (A.apply .sinh [x]) (.int (-2))))
  | .asin => some (A.inv (A.sqrt (A.sub .one (square x))))
  | .acos => some (A.neg (A.inv (A.sqrt (A.sub .one (square x)))))
  | .atan => some (A.inv (A.add [.one, square x]))
  | _ => none

def untaken (e x : Expr) : Expr := .node .derivative [e, .node .tuple [x, .one]]

def depends (x e : Expr) : Bool := e.symbols.contains x

/-- `fuel` bounds the nesting depth. -/
def byDeep : Nat → Expr → Expr → Outcome Expr
  | 0, _, _ => .ok .zero
  | fuel + 1, x, e => do
    if e == x then return .one
    if !depends x e then return .zero
    match e with
    | .add ts => return A.add (← ts.mapM (byDeep fuel x))
    | .mul fs => do
      let parts ← fs.zipIdx.mapM fun (f, i) => do
        let d ← byDeep fuel x f
        if d.isZero then return none
        else return some ((fs.set i d).foldl (fun a b => A.mul [a, b]) .one)
      return A.add (parts.filterMap id)
    | .pow b p => do
      let db ← byDeep fuel x b
      let dp ← byDeep fuel x p
      let left := A.mul [dp, A.apply .log [b]]
      let right := A.div (A.mul [db, p]) b
      return A.mul [e, A.add [left, right]]
    | .piecewise bs => do
      let bs ← bs.mapM fun
        | .branch v c => do return .branch (← byDeep fuel x v) c
        | b => .ok b
      Build.node A .piecewise bs
    | .node (.placeholder name _) as => do
      let hidden := (as.getLast?).getD .zero
      let ds ← (List.zip as.dropLast (byName hidden)).mapM fun (a, s) => do
        let da ← byDeep fuel x a
        if da.isZero then return none
        let d ← byDeep fuel s hidden
        let d := if d.hasSymbols then symbolFor name s else d
        return some (A.mul [d, da])
      return A.add (ds.filterMap id)
    | .fn (.named _) as => do
      let ds ← as.mapM fun a => do
        let da ← byDeep fuel x a
        if da.isZero then return none
        return some (A.mul [untaken e a, da])
      return A.add (ds.filterMap id)
    | .fn f [a] => do
      let da ← byDeep fuel x a
      if da.isZero then return .zero
      match outer A f a with
      | some d => return A.mul [d, da]
      | none => match f with
        | .abs =>
          if A.is .extReal a then return A.mul [da, A.apply .sign [a]]
          else return untaken e x
        | .floor | .ceiling => return A.mul [untaken e a, da]
        | _ => return untaken e x
    | _ => raise .noSuchPart

def along (x e : Expr) : Outcome Expr := byDeep A (2 * e.depth + 4) x e

end StencilForge.Differentiate
